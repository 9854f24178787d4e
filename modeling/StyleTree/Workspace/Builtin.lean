import StyleTree.Files.Disk
import StyleTree.Text.Utf8

/-!
# The builtin library

The stylesheets which come with the program: buttons with variants, and the layout of pages.
-/

namespace StyleTree.Builtin

def buttons : String := "schema: stylesheet/v1
name: buttons
description: Buttons with size and intent variants
classes:
  button:
    display: inline-block
    padding: 8px 16px
    border: 1px solid transparent
    borderRadius: 4px
    cursor: pointer
    \":hover\":
      opacity: 0.9
    \":focus\":
      outline: \"2px solid #4c9ffe\"
    \"@media (max-width: 600px)\":
      padding: 6px 12px
      \":active\":
        opacity: 0.8
    \"@variants\":
      primary:
        color: white
        background: \"#1e6fd9\"
        \":hover\":
          background: \"#1859b0\"
      danger:
        color: white
        background: \"#d93025\"
      plain: ~
  icon:
    width: 16px
    height: 16px
    verticalAlign: middle
"

def layout : String := "schema: stylesheet/v1
name: layout
description: Page layout containers
classes:
  page:
    margin: 0 auto
    maxWidth: 960px
    \"@media (max-width: 960px)\":
      padding: 0 16px
  column:
    display: flex
    flexDirection: column
    \"@variants\":
      tight:
        gap: 4px
      loose:
        gap: 24px
        \"@media (max-width: 600px)\":
          gap: 12px
  footer:
    fontSize: 12px
    color: \"#666\"
    \"::before\":
      content: \"''\"
      display: block
      borderTop: \"1px solid #eee\"
"

def library : Path := ⟨["share", "styletree", "library"]⟩

/-- A disk with the library. -/
def disk : Disk where
  entries := [
    (library.parts ++ ["buttons.yaml"], .file (Utf8.encode buttons)),
    (library.parts ++ ["layout.yaml"], .file (Utf8.encode layout)),
    (["share"], .directory), (["share", "styletree"], .directory), (library.parts, .directory)]

end StyleTree.Builtin
