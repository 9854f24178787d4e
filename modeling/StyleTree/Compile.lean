import StyleTree.Compiled.Basic
import StyleTree.Diagnostic
import StyleTree.Key

/-!
# Compilation of descriptions

A description maps class names to blocks. A block holds properties, blocks for pseudo-selectors and
media queries and, in the block of a class, a map of variants as its last entry. Compilation checks
the keys of a block in order and stops at the first fault.

A nested block becomes a nested rule: under the key of a pseudo-selector with `&` in front, or under
the key of a media query as it is. Properties are kept, whatever their values. A variant becomes the
class `class-variant`, whose rule stands beside that of its class; an absent block declares a
variant without a rule.

Where a block stands bounds how deep the blocks inside of it are, so that even a description which
holds itself is compiled.

## Main definitions

* `Block.compile`: a block, by where it stands.
* `Compiled.ofDescription`: a whole description.
* `Compiled.outcome`: the same, with faults as far as they can be reported.

## Main statements

* `Block.compile_eq`: a block is compiled from the compiled blocks inside of it.
-/

namespace StyleTree

/-- What a block is compiled to. -/
structure Block where
  /-- The entries of its own rule. -/
  rules : Rules := []
  /-- The rules of its variants. -/
  siblings : RuleTree := []
  /-- All its variants. -/
  variants : VariantTable := []
  deriving Inhabited

namespace Block

/-- The class which a variant of a class stands for. -/
def variantClass (className variant : String) : String := className ++ "-" ++ variant

/-- Two variants of one class stand for different classes. -/
theorem variantClass_inj {className v w : String} :
    variantClass className v = variantClass className w ↔ v = w := by
  simp [variantClass]

/-- The fault of a value which is no map with entries. -/
def fault (className : Option String) (path : List Value) (block : Value) : Fault :=
  if block.isFalsy then ⟨.emptyBlock, className, path⟩
  else ⟨.invalidBlock block.typeName, className, path⟩

/-- A way to compile a block: by where it stands, the class it is for and the path to it. -/
abbrev Compiler := Nesting → String → List Value → Value → Except Fault Block

/-- The variants of a class, from one of them on: the rules of its variants and all its variants. -/
def compileVariantEntries (inner : Compiler) (className : String) (path : List Value) :
    Value.Entries → Except Fault (RuleTree × VariantTable)
  | [] => .ok ([], [])
  | (.str variant, block) :: rest =>
    let here := path ++ [.str variant]
    let own := variantClass className variant
    if variant.isEmpty then .error ⟨.invalidKey (.str variant), some className, here⟩
    else if block.isFalsy then do
      let (siblings, variants) ← compileVariantEntries inner className path rest
      .ok (siblings, (variant, own) :: variants)
    else do
      let nested ← inner .variant own here block
      let (siblings, variants) ← compileVariantEntries inner className path rest
      .ok ((own, nested.rules) :: siblings, (variant, own) :: variants)
  | (key, _) :: _ => .error ⟨.invalidKey key, some className, path ++ [key]⟩

/-- The map of the variants of a class. -/
def compileVariants (inner : Compiler) (className : String) (path : List Value) (map : Value) :
    Except Fault (RuleTree × VariantTable) :=
  match map.entries? with
  | some (entry :: rest) => compileVariantEntries inner className path (entry :: rest)
  | _ => .error (fault (some className) path map)

/-- The entries of a block, from one of them on. -/
def compileEntries (inner : Compiler) (nesting : Nesting) (className : String)
    (path : List Value) : Value.Entries → Except Fault Block
  | [] => .ok {}
  | (.str key, value) :: rest =>
    let here := path ++ [.str key]
    match KeyKind.ofText key with
    | .invalid => .error ⟨.invalidKey (.str key), some className, here⟩
    | .variants =>
      if nesting.allows .variants then do
        let (siblings, variants) ← compileVariants inner className here value
        match rest with
        | [] => .ok { siblings, variants }
        | (late, _) :: _ => .error ⟨.variantsNotLast late, some className, path ++ [late]⟩
      else .error ⟨.variantsNotTopLevel (.str key), some className, here⟩
    | .pseudo =>
      if nesting.allows .pseudo then do
        let nested ← inner .pseudo className here value
        let block ← compileEntries inner nesting className path rest
        .ok { block with
          rules := (selfReference ++ key, Rules.toValue nested.rules) :: block.rules }
      else .error ⟨.pseudoNested (.str key), some className, here⟩
    | .media =>
      if nesting.allows .media then do
        let nested ← inner .media className here value
        let block ← compileEntries inner nesting className path rest
        .ok { block with rules := (key, Rules.toValue nested.rules) :: block.rules }
      else .error ⟨.mediaInvalidScope (.str key), some className, here⟩
    | .property => do
      let block ← compileEntries inner nesting className path rest
      .ok { block with rules := (key, value) :: block.rules }
  | (key, _) :: _ => .error ⟨.invalidKey key, some className, path ++ [key]⟩

/-- A block, with a way to compile the blocks inside of it. -/
def compileWith (inner : Compiler) : Compiler := fun nesting className path block =>
  match block.entries? with
  | some (entry :: rest) => compileEntries inner nesting className path (entry :: rest)
  | _ => .error (fault (some className) path block)

/-- A block in which blocks are nested to a depth. -/
def compileTo : Nat → Compiler
  | 0 => fun _ className path block => .error (fault (some className) path block)
  | depth + 1 => compileWith (compileTo depth)

/-- A block of a class, with the path which leads to it. -/
def compile : Compiler := fun nesting => compileTo nesting.depth nesting

theorem compileVariants_congr {f g : Compiler} (h : f .variant = g .variant) (className : String)
    (path : List Value) (map : Value) :
    compileVariants f className path map = compileVariants g className path map := by
  have hentries (entries : Value.Entries) :
      compileVariantEntries f className path entries =
        compileVariantEntries g className path entries := by
    induction entries with
    | nil => rfl
    | cons entry rest ih =>
      obtain ⟨key, value⟩ := entry
      cases key <;> simp [compileVariantEntries, h, ih]
  simp [compileVariants, hentries]

/-- A block is compiled the same way if all less deep blocks are. -/
theorem compileWith_congr {f g : Compiler} {nesting : Nesting}
    (h : ∀ n : Nesting, n.depth < nesting.depth → f n = g n) :
    compileWith f nesting = compileWith g nesting := by
  have hentries (className : String) (path : List Value) (entries : Value.Entries) :
      compileEntries f nesting className path entries =
        compileEntries g nesting className path entries := by
    induction entries with
    | nil => rfl
    | cons entry rest ih =>
      obtain ⟨key, value⟩ := entry
      cases key with
      | str key =>
        simp only [compileEntries, ih]
        split
        · rfl
        · split
          · next allowed =>
            rw [compileVariants_congr (h _ (Nesting.depth_lt_of_allows_variants allowed))]
          · rfl
        · split
          · next allowed => rw [h _ (Nesting.depth_lt_of_allows_pseudo allowed)]
          · rfl
        · split
          · next allowed => rw [h _ (Nesting.depth_lt_of_allows_media allowed)]
          · rfl
        · rfl
      | _ => rfl
  funext className path block
  simp [compileWith, hentries]

/-- More depth than a block can have makes no difference. -/
theorem compileTo_eq {depth : Nat} {nesting : Nesting} (h : nesting.depth ≤ depth) :
    compileTo depth nesting = compile nesting := by
  induction depth using Nat.strongRecOn generalizing nesting with
  | _ depth ih =>
    match depth, hd : nesting.depth with
    | 0, 0 => cases nesting <;> cases hd
    | 0, _ + 1 => omega
    | _ + 1, 0 => cases nesting <;> cases hd
    | depth + 1, k + 1 =>
      rw [compile, hd]
      refine compileWith_congr fun n hn => ?_
      by_cases hk : k = depth
      · rw [hk]
      · rw [ih depth (by omega) (by omega), ih k (by omega) (by omega)]

/-- A block is compiled from the compiled blocks inside of it. -/
theorem compile_eq : compile = compileWith compile := by
  funext nesting
  match hd : nesting.depth with
  | 0 => cases nesting <;> cases hd
  | k + 1 =>
    rw [compile, hd]
    exact compileWith_congr fun n hn => compileTo_eq (by omega)

/-- The class names which the block of a class takes: the class and its variants. -/
def claims (className : String) (block : Block) : List String :=
  className :: block.variants.map (·.2)

end Block

namespace Compiled

/-- The claimed names with some more, each of which has to be new. -/
def claim : List String → List String → Except Fault (List String)
  | claimed, [] => .ok claimed
  | claimed, name :: names =>
    if name ∈ claimed then .error ⟨.duplicateClass name, some name, [.str name]⟩
    else claim (name :: claimed) names

def withClass (className : String) (block : Block) (c : Compiled) : Compiled where
  ruleTree := (className, block.rules) :: (block.siblings ++ c.ruleTree)
  classes := if block.variants.isEmpty then c.classes else (className, block.variants) :: c.classes
  baseClasses := className :: c.baseClasses

/-- The classes of a description, from one of them on, beside the names claimed before. -/
def ofClasses (claimed : List String) : Value.Entries → Except Fault Compiled
  | [] => .ok {}
  | (.str className, value) :: rest =>
    if className.isEmpty then .error ⟨.invalidKey (.str className), none, [.str className]⟩
    else do
      let block ← Block.compile .topLevel className [.str className] value
      let claimed ← claim claimed (block.claims className)
      let compiled ← ofClasses claimed rest
      .ok (compiled.withClass className block)
  | (key, _) :: _ => .error ⟨.invalidKey key, none, [key]⟩

/-- The stylesheet of a description, or the first fault of the description. -/
def ofDescription (description : Value) : Except Fault Compiled :=
  match description.entries? with
  | some (entry :: rest) => ofClasses [] (entry :: rest)
  | _ => .error (Block.fault none [] description)

end Compiled

/-- Why a description is refused. -/
inductive Refusal where
  /-- A fault with its report. -/
  | fault (f : Fault)
  /-- The report of a fault would quote a number which is too long to be written. -/
  | longNumber

def Fault.refusal (f : Fault) : Refusal := if f.isWritable then .fault f else .longNumber

/-- The stylesheet of a description, or why the description is refused. -/
def Compiled.outcome (description : Value) : Except Refusal Compiled :=
  (ofDescription description).mapError Fault.refusal

end StyleTree
