import StyleTree.Proofs.GeneratedNames
import StyleTree.Proofs.History
import StyleTree.Proofs.PropertyNames

/-!
# Reading style sheets back

The text of a style sheet can be taken apart into its blocks in one way only, although selectors,
media queries and values may hold any braces, semicolons, colons and spaces. It is the lines that
count. A block ends at the first line which holds nothing but a brace as far in as its head; what is
in the block stands further in. The head of a rule begins with the dot of a class and that of a
media query with an at sign, and a property ends at the first colon of its line. So all that is
asked for is that nothing in a sheet has a line feed in it, and no property a colon.

## Main definitions

* `Css.Item.IsLegible`: a block of which this holds.
* `Sheet.IsPlain`: a sheet of which this holds.

## Main statements

* `Css.Item.allLines_inj`: lines are those of one list of blocks.
* `Css.Item.text_inj`: so are texts.
* `Sheet.css_eq_iff`: sheets have one style sheet if and only if they print the same blocks.
-/

namespace StyleTree

namespace Css

/-! ## Lines -/

/-- The text has no line feed in it. -/
def IsLine (s : String) : Prop := '\n' ∉ s.toList

instance (s : String) : Decidable (IsLine s) := inferInstanceAs (Decidable (_ ∉ _))

@[simp] theorem isLine_append {s t : String} : IsLine (s ++ t) ↔ IsLine s ∧ IsLine t := by
  simp [IsLine]

/-- The digits of a number stand on a line. -/
@[simp] theorem isLine_repr (n : Nat) : IsLine n.repr := Sheet.not_mem_toString rfl n

/-- The first of some marks parts a list in one way. -/
theorem append_cons_inj {α : Type} {mark : α} {xs ys s t : List α} (hxs : mark ∉ xs)
    (hys : mark ∉ ys) (h : xs ++ mark :: s = ys ++ mark :: t) : xs = ys ∧ s = t := by
  -- If one of the parts in front were longer, the other's mark would be in it.
  rcases List.append_eq_append_iff.1 h with ⟨more, rfl, hmore⟩ | ⟨more, rfl, hmore⟩ <;>
    cases more <;> simp_all

/-- Lines are read back from the text which they are joined to. -/
theorem intercalate_inj {lines others : List String} (hlines : ∀ l ∈ lines, IsLine l)
    (hothers : ∀ l ∈ others, IsLine l) (hne : lines ≠ []) (hne' : others ≠ [])
    (h : "\n".intercalate lines = "\n".intercalate others) : lines = others := by
  have hsplit {ls : List String} (hls : ∀ l ∈ ls, IsLine l) (hne : ls ≠ []) :
      List.splitOn '\n' ("\n".intercalate ls).toList = ls.map String.toList := by
    rw [String.toList_intercalate]
    apply List.splitOn_intercalate
    · simpa [IsLine] using hls
    · simpa using hne
  have hmap := hsplit hlines hne
  rw [h, hsplit hothers hne'] at hmap
  exact (List.map_injective_iff.2 fun s t => String.toList_inj.1) hmap.symm

/-! ## Properties -/

/-- A property name can be told from the value behind the colon. -/
def IsPropertyName (s : String) : Prop := IsLine s ∧ ':' ∉ s.toList

theorem IsPropertyName.hyphenate {name : String} (h : IsPropertyName name) :
    IsPropertyName (hyphenate name) :=
  ⟨not_mem_hyphenate (by decide) (by decide) h.1, not_mem_hyphenate (by decide) (by decide) h.2⟩

/-- A declaration whose line can be read. -/
def IsDeclaration (declaration : String × String) : Prop :=
  IsPropertyName declaration.1 ∧ IsLine declaration.2

namespace Item

theorem declarationLine_inj {indent : String} {d e : String × String} (hd : IsDeclaration d)
    (he : IsDeclaration e) (h : declarationLine indent d = declarationLine indent e) : d = e := by
  have hchars : d.1.toList ++ ':' :: (' ' :: (d.2.toList ++ [';'])) =
      e.1.toList ++ ':' :: (' ' :: (e.2.toList ++ [';'])) := by
    simpa [declarationLine] using congrArg String.toList h
  obtain ⟨hproperty, hvalue⟩ := append_cons_inj hd.1.2 he.1.2 hchars
  have hvalues : d.2.toList = e.2.toList := by simpa using hvalue
  exact Prod.ext (String.toList_inj.1 hproperty) (String.toList_inj.1 hvalues)

theorem map_declarationLine_inj {indent : String} {ds es : List (String × String)}
    (hds : ∀ d ∈ ds, IsDeclaration d) (hes : ∀ e ∈ es, IsDeclaration e)
    (h : ds.map (declarationLine indent) = es.map (declarationLine indent)) : ds = es := by
  induction ds generalizing es with
  | nil => exact (List.map_eq_nil_iff.1 h.symm).symm
  | cons d ds ih =>
    obtain ⟨e, es, rfl, hline, hlines⟩ := List.map_eq_cons_iff.1 h.symm
    simp only [List.forall_mem_cons] at hds hes
    rw [declarationLine_inj hes.1 hds.1 hline, ih hds.2 hes.2 hlines.symm]

/-! ## Blocks -/

/-- A block whose lines can be read. -/
inductive IsLegible : Item → Prop
  | rule {selector : String} {declarations : List (String × String)}
      (dot : selector.toList.head? = some '.') (line : IsLine selector)
      (declared : ∀ d ∈ declarations, IsDeclaration d) : IsLegible (.rule selector declarations)
  | media {query : String} {items : List Item} (sign : query.toList.head? = some '@')
      (line : IsLine query) (inner : ∀ item ∈ items, IsLegible item) :
      IsLegible (.media query items)

/-- What stands in front of the brace which opens a block. -/
def head : Item → String
  | .rule selector _ => selector
  | .media query _ => query

/-- The lines between the braces of a block. -/
def body (indent : String) : Item → List String
  | .rule _ declarations => declarations.map (declarationLine indent)
  | .media _ items => allLines (deeper indent) items

theorem lines_eq (indent : String) (item : Item) :
    lines indent item =
      (indent ++ item.head ++ " \x7b") :: (item.body indent ++ [indent ++ "\x7d"]) := by
  cases item <;> simp [lines, head, body]

mutual

/-- All lines of a block stand as far in as the block. -/
theorem exists_of_mem_lines {indent line : String} :
    ∀ item : Item, line ∈ lines indent item → ∃ rest, line = indent ++ rest
  | .rule selector declarations, h => by
    simp only [lines, List.mem_cons, List.mem_append, List.mem_map, List.not_mem_nil,
      or_false] at h
    rcases h with rfl | ⟨⟨property, value⟩, -, rfl⟩ | rfl
    · exact ⟨_, String.append_assoc⟩
    · exact ⟨"  " ++ property ++ ": " ++ value ++ ";", by
        simp [declarationLine, deeper, String.append_assoc]⟩
    · exact ⟨_, rfl⟩
  | .media query items, h => by
    simp only [lines, List.mem_cons, List.mem_append, List.not_mem_nil, or_false] at h
    rcases h with rfl | h | rfl
    · exact ⟨_, String.append_assoc⟩
    · obtain ⟨rest, rfl⟩ := exists_of_mem_allLines items h
      exact ⟨_, String.append_assoc⟩
    · exact ⟨_, rfl⟩

theorem exists_of_mem_allLines {indent line : String} :
    ∀ items : List Item, line ∈ allLines indent items → ∃ rest, line = indent ++ rest
  | [], h => by simp [allLines] at h
  | item :: rest, h => by
    rw [allLines, List.mem_append] at h
    exact h.elim (exists_of_mem_lines item) (exists_of_mem_allLines rest)

end

/-- What is in a block stands further in than the brace which closes it. -/
theorem closing_not_mem_body (indent : String) (item : Item) :
    indent ++ "\x7d" ∉ item.body indent := by
  have hdeeper (rest : String) : indent ++ "\x7d" ≠ deeper indent ++ rest := by
    intro h
    simpa [deeper] using congrArg String.toList h
  intro h
  cases item with
  | rule selector declarations =>
    obtain ⟨⟨property, value⟩, -, hline⟩ := List.mem_map.1 h
    apply hdeeper (property ++ ": " ++ value ++ ";")
    simp [← hline, declarationLine, String.append_assoc]
  | media query items =>
    obtain ⟨rest, hline⟩ := exists_of_mem_allLines items h
    exact hdeeper rest hline

/-- The first of some blocks ends at the first brace which closes a block as far in, so that it has
a head and a body of its own. -/
theorem head_and_body_of_lines_append {indent : String} {item other : Item} {s t : List String}
    (h : lines indent item ++ s = lines indent other ++ t) :
    item.head = other.head ∧ item.body indent = other.body indent ∧ s = t := by
  simp only [lines_eq, List.cons_append, List.append_assoc, List.cons.injEq,
    List.nil_append, String.append_left_inj, String.append_right_inj] at h
  obtain ⟨hhead, hbody⟩ := h
  have hclosing := append_cons_inj (closing_not_mem_body indent item)
    (closing_not_mem_body indent other) hbody
  exact ⟨hhead, hclosing⟩

mutual

/-- A block is read back from its lines, and from nothing more of the lines in which they come
first. -/
theorem lines_append_inj : ∀ {indent : String} {item other : Item} {s t : List String},
    item.IsLegible → other.IsLegible → lines indent item ++ s = lines indent other ++ t →
      item = other ∧ s = t
  | indent, .rule _ _, .rule _ _, s, t, .rule _ _ hds, .rule _ _ hes, h => by
    obtain ⟨rfl, hbody, htail⟩ := head_and_body_of_lines_append h
    rw [map_declarationLine_inj hds hes hbody]
    exact ⟨rfl, htail⟩
  | indent, .media _ items, .media _ others, s, t, .media _ _ hitems, .media _ _ hothers, h => by
    obtain ⟨rfl, hbody, htail⟩ := head_and_body_of_lines_append h
    rw [allLines_inj hitems hothers hbody]
    exact ⟨rfl, htail⟩
  | indent, .rule _ _, .media _ _, s, t, .rule hdot _ _, .media hsign _ _, h => by
    obtain ⟨hhead, -⟩ := head_and_body_of_lines_append h
    simp_all [head]
  | indent, .media _ _, .rule _ _, s, t, .media hsign _ _, .rule hdot _ _, h => by
    obtain ⟨hhead, -⟩ := head_and_body_of_lines_append h
    simp_all [head]

/-- Lines are those of one list of blocks. -/
theorem allLines_inj : ∀ {indent : String} {items others : List Item},
    (∀ item ∈ items, item.IsLegible) → (∀ item ∈ others, item.IsLegible) →
    allLines indent items = allLines indent others → items = others
  | _, [], others, _, _, h => (allLines_eq_nil_iff.1 h.symm).symm
  | _, item :: rest, [], _, _, h => allLines_eq_nil_iff.1 h
  | indent, item :: rest, other :: others, hitems, hothers, h => by
    simp only [List.forall_mem_cons] at hitems hothers
    obtain ⟨rfl, hrest⟩ := lines_append_inj hitems.1 hothers.1 h
    rw [allLines_inj hitems.2 hothers.2 hrest]

end

/-! ## Texts -/

mutual

theorem isLine_of_mem_lines {indent line : String} (hindent : IsLine indent) :
    ∀ item : Item, item.IsLegible → line ∈ lines indent item → IsLine line
  | .rule selector declarations, .rule _ hselector hdeclarations, h => by
    simp only [lines, List.mem_cons, List.mem_append, List.mem_map, List.not_mem_nil,
      or_false] at h
    rcases h with rfl | ⟨d, hd, rfl⟩ | rfl
    · simp +decide [hindent, hselector]
    · obtain ⟨hproperty, hvalue⟩ := hdeclarations d hd
      simp +decide [declarationLine, deeper, hindent, hproperty.1, hvalue]
    · simp +decide [hindent]
  | .media query items, .media _ hquery hitems, h => by
    simp only [lines, List.mem_cons, List.mem_append, List.not_mem_nil, or_false] at h
    rcases h with rfl | h | rfl
    · simp +decide [hindent, hquery]
    · exact isLine_of_mem_allLines (by simp +decide [deeper, hindent]) items hitems h
    · simp +decide [hindent]

theorem isLine_of_mem_allLines {indent line : String} (hindent : IsLine indent) :
    ∀ items : List Item, (∀ item ∈ items, item.IsLegible) → line ∈ allLines indent items →
      IsLine line
  | [], _, h => by simp [allLines] at h
  | item :: rest, hitems, h => by
    rw [List.forall_mem_cons] at hitems
    rw [allLines, List.mem_append] at h
    exact h.elim (isLine_of_mem_lines hindent item hitems.1)
      (isLine_of_mem_allLines hindent rest hitems.2)

end

theorem text_eq_empty_iff {items : List Item} : text items = "" ↔ items = [] := by
  unfold text
  split <;> simp_all

/-- Texts are those of one list of blocks. -/
theorem text_inj {items others : List Item} (hitems : ∀ item ∈ items, item.IsLegible)
    (hothers : ∀ item ∈ others, item.IsLegible) (h : text items = text others) :
    items = others := by
  by_cases hnone : items = []
  · rw [hnone, eq_comm, ← text_eq_empty_iff, ← h, text_eq_empty_iff, hnone]
  · have hnone' : others ≠ [] := by rwa [Ne, ← text_eq_empty_iff, ← h, text_eq_empty_iff]
    have hjoined : "\n".intercalate (allLines "" items) =
        "\n".intercalate (allLines "" others) := by
      simpa [text, hnone, hnone'] using h
    apply allLines_inj hitems hothers
    apply intercalate_inj _ _ _ _ hjoined
    · intro line hline
      exact isLine_of_mem_allLines (by decide) items hitems hline
    · intro line hline
      exact isLine_of_mem_allLines (by decide) others hothers hline
    · rwa [Ne, allLines_eq_nil_iff]
    · rwa [Ne, allLines_eq_nil_iff]

end Item

/-! ## Rules -/

section

variable (properties : Option Value.Entries)

mutual

/-- No key of the rule or of a rule nested in it and no value which a property in them comes to has
a line feed in it, and no key of a property has a colon. -/
def IsPlain : Value → Prop
  | .map entries => ArePlain entries
  | _ => True

def ArePlain : Value.Entries → Prop
  | [] => True
  | (.str key, value) :: rest =>
    (if isNestedKey key then IsLine key ∧ IsPlain value
      else IsPropertyName key ∧
        ∀ meant, resolve properties value = .ok meant → IsLine (formatValue meant)) ∧
    ArePlain rest
  | _ :: rest => ArePlain rest

end

end

/-- The text begins with the dot of a class. -/
def IsSelector (s : String) : Prop := s.toList.head? = some '.' ∧ IsLine s

theorem IsSelector.append {selector s : String} (h : IsSelector selector) (hs : IsLine s) :
    IsSelector (selector ++ s) := by
  refine ⟨?_, isLine_append.2 ⟨h.2, hs⟩⟩
  rw [String.toList_append, List.head?_append, h.1, Option.some_or]

theorem head?_of_isMediaText {key : String} (h : KeyKind.isMediaText key = true) :
    key.toList.head? = some '@' := by
  obtain ⟨rest, hrest⟩ := List.isPrefixOf_iff_prefix.1 h
  rw [← hrest]
  rfl

theorem isDeclaration_of_mem_declaration {key : String} {value : Value}
    {out : List (String × String)} (hkey : IsPropertyName key) (hvalue : IsLine (formatValue value))
    (h : declaration key value = .ok out) : ∀ d ∈ out, IsDeclaration d := by
  rcases declaration_eq_nil_or h with rfl | rfl
  · simp
  · simpa using ⟨hkey.hyphenate, hvalue⟩

namespace Item

variable {properties : Option Value.Entries}

theorem isLegible_of_mem_own {selector : String} {declarations : List (String × String)}
    (hselector : IsSelector selector) (h : ∀ d ∈ declarations, IsDeclaration d) :
    ∀ item ∈ own selector declarations, item.IsLegible := by
  unfold own
  split
  · simp
  · simpa using IsLegible.rule hselector.1 hselector.2 h

theorem isSelector_innerSelector {selector key : String} (h : IsSelector selector)
    (hkey : IsLine key) : IsSelector (innerSelector selector key) := by
  unfold innerSelector
  split
  · apply h.append
    intro hmem
    rw [String.toList_ofList] at hmem
    exact hkey (List.mem_of_mem_drop hmem)
  · exact h

theorem isLegible_of_mem_wrapped {key : String} {items : List Item} (hkey : isNestedKey key = true)
    (hline : IsLine key) (h : ∀ item ∈ items, item.IsLegible) :
    ∀ item ∈ wrapped key items, item.IsLegible := by
  rw [isNestedKey, Bool.or_eq_true] at hkey
  unfold wrapped within
  split
  · exact h
  · next hmark =>
    split
    · simp
    · have hsign := head?_of_isMediaText (hkey.resolve_left hmark)
      simpa using IsLegible.media hsign hline h

mutual

/-- The blocks of a plain rule can be read. -/
theorem isLegible_ofRule : ∀ {rule : Value} {selector : String} {items : List Item},
    IsSelector selector → IsPlain properties rule → ofRule properties selector rule = .ok items →
      ∀ item ∈ items, item.IsLegible
  | .map entries, selector, items, hselector, hplain, h => by
    simp only [ofRule] at h
    obtain ⟨⟨declarations, nested⟩, hentries, h⟩ := bind_eq_ok_iff.1 h
    obtain ⟨hdeclarations, hnested⟩ := isLegible_ofEntries hselector hplain hentries
    cases h
    rw [List.forall_mem_append]
    exact ⟨isLegible_of_mem_own hselector hdeclarations, hnested⟩

theorem isLegible_ofEntries : ∀ {entries : Value.Entries} {selector : String}
    {out : List (String × String) × List Item},
    IsSelector selector → ArePlain properties entries →
      ofEntries properties selector entries = .ok out →
        (∀ d ∈ out.1, IsDeclaration d) ∧ ∀ item ∈ out.2, item.IsLegible
  | [], selector, out, _, _, h => by
    cases h
    simp
  | (.str key, value) :: rest, selector, out, hselector, hplain, h => by
    obtain ⟨hentry, hrest⟩ := hplain
    cases hkey : isNestedKey key with
    | false =>
      rw [hkey] at hentry
      obtain ⟨hname, hvalue⟩ := hentry
      rw [ofEntries_of_not_nested _ _ hkey] at h
      obtain ⟨own, hown, h⟩ := bind_eq_ok_iff.1 h
      obtain ⟨meant, hmeant, hown⟩ := bind_eq_ok_iff.1 hown
      obtain ⟨more, hmore, h⟩ := bind_eq_ok_iff.1 h
      obtain ⟨hdeclarations, hnested⟩ := isLegible_ofEntries hselector hrest hmore
      cases h
      refine ⟨?_, hnested⟩
      rw [List.forall_mem_append]
      exact ⟨isDeclaration_of_mem_declaration hname (hvalue meant hmeant) hown, hdeclarations⟩
    | true =>
      rw [hkey] at hentry
      obtain ⟨hline, hvalue⟩ := hentry
      rw [ofEntries_of_nested _ _ hkey] at h
      obtain ⟨items, hitems, h⟩ := bind_eq_ok_iff.1 h
      obtain ⟨more, hmore, h⟩ := bind_eq_ok_iff.1 h
      have hinner := isLegible_ofRule (isSelector_innerSelector hselector hline) hvalue hitems
      obtain ⟨hdeclarations, hnested⟩ := isLegible_ofEntries hselector hrest hmore
      cases h
      refine ⟨hdeclarations, ?_⟩
      rw [List.forall_mem_append]
      exact ⟨isLegible_of_mem_wrapped hkey hline hinner, hnested⟩

end

end Item

end Css

namespace Sheet

/-! ## Sheets -/

theorem exists_of_mem_mapM {ε α β : Type} {f : α → Except ε β} {items : List α} {results : List β}
    (h : items.mapM f = .ok results) {y : β} (hy : y ∈ results) : ∃ x ∈ items, f x = .ok y := by
  induction mapM_eq_ok_iff.1 h with
  | nil => cases hy
  | cons hx _ ih =>
    rcases List.mem_cons.1 hy with rfl | hy
    · exact ⟨_, List.mem_cons_self, hx⟩
    · obtain ⟨x, hmem, hx⟩ := ih (mapM_eq_ok_iff.2 ‹_›) hy
      exact ⟨x, List.mem_cons_of_mem _ hmem, hx⟩

/-- No class name of a rule, no key and no value in the rules has a line feed in it, and no key of a
property has a colon. -/
structure IsPlain (s : Sheet) : Prop where
  names : ∀ e ∈ s.tree, Css.IsLine e.1.text
  rules : ∀ e ∈ s.tree, Css.IsPlain s.properties e.2

variable {s t : Sheet}

theorem isSelector_generatedName {name : Value} (h : Css.IsLine name.text) (sheet rule : Nat) :
    Css.IsSelector ("." ++ generatedName sheet rule name) := by
  apply Css.IsSelector.append
  · exact ⟨rfl, by decide⟩
  · simp +decide [generatedName, h]

/-- The blocks of a plain sheet can be read. -/
theorem IsPlain.isLegible (h : s.IsPlain) {items : List Css.Item} (hitems : s.items = .ok items) :
    ∀ item ∈ items, item.IsLegible := by
  obtain ⟨blocks, hblocks, hflat⟩ := bind_eq_ok_iff.1 hitems
  cases hflat
  intro item hitem
  obtain ⟨block, hblock, hitem⟩ := List.mem_flatten.1 hitem
  obtain ⟨⟨name, generated, rule⟩, hnamed, hrule⟩ := exists_of_mem_mapM hblocks hblock
  obtain ⟨i, hi, hentry⟩ := List.mem_mapIdx.1 hnamed
  cases hentry
  have hmem := List.getElem_mem hi
  have hselector := isSelector_generatedName (h.names _ hmem) s.index i
  exact Css.Item.isLegible_ofRule hselector (h.rules _ hmem) hrule item hitem

/-- Plain sheets have one style sheet, or fail in one way to have any, if and only if they print the
same blocks. -/
theorem css_eq_iff (hs : s.IsPlain) (ht : t.IsPlain) : s.css = t.css ↔ s.items = t.items := by
  constructor
  · intro h
    unfold css at h
    cases hitems : s.items with
    | error fault =>
      rw [hitems] at h
      cases hothers : t.items with
      | error other => simpa [hothers] using h
      | ok others => simp [hothers] at h
    | ok items =>
      rw [hitems] at h
      cases hothers : t.items with
      | error other => simp [hothers] at h
      | ok others =>
        have htext : Css.Item.text items = Css.Item.text others := by simpa [hothers] using h
        rw [Css.Item.text_inj (hs.isLegible hitems) (ht.isLegible hothers) htext]
  · intro h
    rw [css, css, h]

/-- A class with a block, a media query and a block in it. Braces and colons stand in a value and in
the media query, and a block is empty at either depth. -/
def chip : Value :=
  .map [(.str "chip", .map [
    (.str "content", .str "'\x7d'"),
    (.str ":hover", .map [(.str "color", .null)]),
    (.str ":focus", .map [(.str "outlineWidth", .str "2px")]),
    (.str "@media (width: 40em) \x7b", .map [
      (.str "color", .str "black"),
      (.str ":hover", .map [(.str "color", .str "gray")]),
      (.str ":focus", .map [(.str "color", .null)])])])]

/-- A class which prints the same in another form, with a media query in place of an empty block. -/
def plainChip : Value :=
  .map [(.str "chip", .map [
    (.str ":focus", .map [(.str "outline-width", .str "2px")]),
    (.str "@media (width: 40em) \x7b", .map [
      (.str ":hover", .map [(.str "color", .list [.str "gray"])]),
      (.str "color", .list [.str "black"])]),
    (.str "@media print", .map [(.str ":hover", .map [(.str "color", .null)])]),
    (.str "content", .list [.str "'\x7d'"])])]

/-- A sheet with one rule is plain if the rule is. -/
theorem isPlain_of_tree {name rule : Value} (htree : s.tree = [(name, rule)])
    (hname : Css.IsLine name.text) (hrule : Css.IsPlain s.properties rule) : s.IsPlain := by
  constructor <;> rw [htree, List.forall_mem_singleton] <;> assumption

theorem isPlain_chip {c : Compiled} (h : Compiled.ofDescription chip = .ok c) :
    IsPlain ⟨0, c.ruleTree.entries, false, true, none⟩ := by
  cases h
  refine isPlain_of_tree rfl (by decide) ?_
  simp +decide [Rules.toValue, Value.ofFields, Css.IsPlain, Css.ArePlain, Css.IsPropertyName,
    Css.resolve, Css.formatValue, Value.text, Value.items?]

theorem isPlain_plainChip {c : Compiled} (h : Compiled.ofDescription plainChip = .ok c) :
    IsPlain ⟨0, c.ruleTree.entries, true, true, some []⟩ := by
  cases h
  refine isPlain_of_tree rfl (by decide) ?_
  simp +decide [Rules.toValue, Value.ofFields, Css.IsPlain, Css.ArePlain, Css.IsPropertyName,
    Css.resolve, Css.formatValue, Value.text, Value.items?]

theorem items_chip_eq_items_plainChip :
    ∃ c d, Compiled.ofDescription chip = .ok c ∧ Compiled.ofDescription plainChip = .ok d ∧
      (⟨0, c.ruleTree.entries, false, true, none⟩ : Sheet).items =
        (⟨0, d.ruleTree.entries, true, true, some []⟩ : Sheet).items := by
  refine ⟨_, _, rfl, rfl, (css_eq_iff (isPlain_chip rfl) (isPlain_plainChip rfl)).1 ?_⟩
  decide +kernel

end Sheet

end StyleTree
