import StyleTree.Value.Basic

/-!
# Kinds of keys

A key of a block says by its spelling what its value is: a property value, a nested block for a
pseudo-selector or a media query, or the map of the variants of a class. Where a block stands
decides which kinds it may hold.

## Main definitions

* `KeyKind.ofKey`: the kind of a key.
* `Nesting.allows`: the kinds which a block may hold.
-/

namespace StyleTree

/-- What a key introduces. -/
inductive KeyKind where
  | property
  | pseudo
  | media
  | variants
  | invalid
  deriving DecidableEq, Repr

/-- The key of the map of variants. -/
def variantsKey : String := "@variants"

/-- The mark of a pseudo-selector's key in a rule tree: it stands for the enclosing selector. -/
def selfReference : String := "&"

namespace KeyKind

def name : KeyKind → String
  | .property => "property"
  | .pseudo => "pseudo-selector"
  | .media => "media-query"
  | .variants => "variants"
  | .invalid => "invalid"

/-- A key which begins with the media mark, whatever follows. -/
def isMediaText (key : String) : Bool := "@media".toList.isPrefixOf key.toList

/-- The kind of a text key by its first characters. A pseudo-selector is a colon before a second
colon or an ASCII letter; a property begins with an ASCII letter or a dash. -/
def ofText (key : String) : KeyKind :=
  if key = variantsKey then .variants
  else
    match key.toList with
    | ':' :: c :: _ => if c = ':' || c.isAlpha then .pseudo else .invalid
    | c :: _ =>
      if isMediaText key then .media
      else if c.isAlpha || c = '-' then .property
      else .invalid
    | [] => .invalid

@[simp] theorem ofText_variantsKey : ofText variantsKey = .variants := rfl

/-- The key of variants is the only one of its kind. -/
theorem ofText_eq_variants_iff {key : String} : ofText key = .variants ↔ key = variantsKey := by
  refine ⟨fun h => ?_, fun h => h ▸ ofText_variantsKey⟩
  unfold ofText at h
  grind

/-- The kind of a key. A key which is no text is invalid. -/
def ofKey : Value → KeyKind
  | .str key => ofText key
  | _ => .invalid

end KeyKind

/-- Where a block stands. -/
inductive Nesting where
  | topLevel
  | variant
  | media
  | pseudo
  deriving DecidableEq, Repr

namespace Nesting

/-- The kinds of keys which a block may hold, by where it stands. -/
def allows : Nesting → KeyKind → Bool
  | .topLevel, .variants => true
  | .topLevel, .media | .variant, .media => true
  | .topLevel, .pseudo | .variant, .pseudo | .media, .pseudo => true
  | _, .property => true
  | _, _ => false

/-- Properties may stand in every block. -/
@[simp] theorem allows_property (n : Nesting) : n.allows .property = true := by
  cases n <;> rfl

/-- Variants may only stand in the block of a class. -/
theorem allows_variants_iff (n : Nesting) : n.allows .variants = true ↔ n = .topLevel := by
  cases n <;> simp [allows]

/-- How many blocks can be nested into each other from a block of this place on. -/
def depth : Nesting → Nat
  | .topLevel => 4
  | .variant => 3
  | .media => 2
  | .pseudo => 1

theorem depth_lt_of_allows_pseudo {n : Nesting} (h : n.allows .pseudo = true) :
    Nesting.pseudo.depth < n.depth := by
  cases n <;> simp_all [allows, depth]

theorem depth_lt_of_allows_media {n : Nesting} (h : n.allows .media = true) :
    Nesting.media.depth < n.depth := by
  cases n <;> simp_all [allows, depth]

theorem depth_lt_of_allows_variants {n : Nesting} (h : n.allows .variants = true) :
    Nesting.variant.depth < n.depth := by
  cases n <;> simp_all [allows, depth]

def name : Nesting → String
  | .topLevel => "top-level"
  | .variant => "variant"
  | .media => "media-query"
  | .pseudo => "pseudo-selector"

def ofName? (name : String) : Option Nesting :=
  [topLevel, variant, media, pseudo].find? fun (n : Nesting) => n.name = name

end Nesting

end StyleTree
