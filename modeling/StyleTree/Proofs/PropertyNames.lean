import StyleTree.Proofs.DynamicValues

/-!
# Names of properties in style sheets

A property is authored in camel case and stands in a style sheet with dashes: each capital becomes a
dash and its small letter, wherever it stands in the name. Only ASCII capitals count; all other
characters are kept.

Dashes come from capitals or are authored. Where none are authored, a dash tells that a capital was
there, and the name is read back from its printed form. So no two properties of a rule with such
names become one in the style sheet.

## Main definitions

* `Css.camelCase`: reads a name back from its printed form.

## Main statements

* `Css.camelCase_hyphenate`: a name without dashes is read back.
* `Css.Item.exists_names_of_ofEntries`: the printed names of a rule come from its keys, in order.
* `Css.hyphenate_keeps_apart`: what printing does to names, and to those of one rule.
-/

namespace StyleTree.Css

/-! ## Capitals -/

section Capitals

variable {c : Char}

/-- What holds of each of the 26 capitals holds of a capital. -/
theorem forall_isUpper {p : Char → Prop} (h : ∀ n < 26, p (Char.ofNat (65 + n)))
    (hc : c.isUpper = true) : p c := by
  have hrange : 65 ≤ c.toNat ∧ c.toNat ≤ 90 := by
    simpa [UInt32.le_iff_toNat_le] using of_decide_eq_true hc
  have hcapital := h (c.toNat - 65) (by omega)
  rwa [Nat.add_sub_cancel' hrange.1, Char.ofNat_toNat] at hcapital

theorem isLower_toLower (h : c.isUpper = true) : c.toLower.isLower = true :=
  forall_isUpper (p := fun c => c.toLower.isLower = true) (by decide) h

theorem isUpper_toLower (h : c.isUpper = true) : c.toLower.isUpper = false :=
  forall_isUpper (p := fun c => c.toLower.isUpper = false) (by decide) h

theorem toUpper_toLower (h : c.isUpper = true) : c.toLower.toUpper = c :=
  forall_isUpper (p := fun c => c.toLower.toUpper = c) (by decide) h

theorem hyphenateChar_of_isUpper (h : c.isUpper = true) : hyphenateChar c = ['-', c.toLower] :=
  if_pos h

theorem hyphenateChar_of_not_isUpper (h : c.isUpper = false) : hyphenateChar c = [c] :=
  if_neg (by simp [h])

/-- What is printed for a character is the character, unless that is a capital, or a dash or a small
letter. -/
theorem mem_hyphenateChar {d : Char} (h : d ∈ hyphenateChar c) :
    (d = c ∧ c.isUpper = false) ∨ d = '-' ∨ (d.isLower = true ∧ d.isUpper = false) := by
  cases hc : c.isUpper with
  | true =>
    rw [hyphenateChar_of_isUpper hc, List.mem_pair] at h
    obtain rfl | rfl := h
    · exact .inr (.inl rfl)
    · exact .inr (.inr ⟨isLower_toLower hc, isUpper_toLower hc⟩)
  | false =>
    rw [hyphenateChar_of_not_isUpper hc, List.mem_singleton] at h
    exact .inl ⟨h, rfl⟩

end Capitals

/-! ## Names -/

variable {name other : String}

theorem toList_hyphenate (name : String) :
    (hyphenate name).toList = name.toList.flatMap hyphenateChar := by
  simp [hyphenate]

theorem hyphenate_append (name other : String) :
    hyphenate (name ++ other) = hyphenate name ++ hyphenate other := by
  simp [hyphenate, String.ofList_append]

/-- No capital is left in a printed name. -/
theorem isUpper_of_mem_hyphenate {c : Char} (h : c ∈ (hyphenate name).toList) :
    c.isUpper = false := by
  rw [toList_hyphenate, List.mem_flatMap] at h
  obtain ⟨d, -, hd⟩ := h
  obtain ⟨rfl, hupper⟩ | rfl | ⟨-, hupper⟩ := mem_hyphenateChar hd
  · exact hupper
  · rfl
  · exact hupper

/-- The printed form of a name holds no marks which the name does not hold. -/
theorem not_mem_hyphenate {mark : Char} (hdash : mark ≠ '-') (hlower : mark.isLower = false)
    (h : mark ∉ name.toList) : mark ∉ (hyphenate name).toList := by
  rw [toList_hyphenate, List.mem_flatMap]
  rintro ⟨c, hc, hmark⟩
  obtain ⟨rfl, -⟩ | rfl | ⟨hletter, -⟩ := mem_hyphenateChar hmark
  · exact h hc
  · exact hdash rfl
  · simp [hlower] at hletter

/-- The names which are printed as they are are those without capitals. -/
theorem hyphenate_eq_self_iff :
    hyphenate name = name ↔ ∀ c ∈ name.toList, c.isUpper = false := by
  constructor
  · intro h c hc
    exact isUpper_of_mem_hyphenate (h.symm ▸ hc)
  · intro h
    have hchars : name.toList.flatMap hyphenateChar = name.toList.flatMap fun c => [c] :=
      List.flatMap_congr fun c hc => hyphenateChar_of_not_isUpper (h c hc)
    rw [hyphenate, hchars, List.flatMap_singleton', String.ofList_toList]

@[simp] theorem hyphenate_hyphenate (name : String) :
    hyphenate (hyphenate name) = hyphenate name :=
  hyphenate_eq_self_iff.2 fun _ hc => isUpper_of_mem_hyphenate hc

/-! ## Reading names back -/

/-- Characters with a capital for each dash which a small letter follows. -/
def camelCaseChars : List Char → List Char
  | '-' :: c :: rest =>
    if c.isLower then c.toUpper :: camelCaseChars rest else '-' :: camelCaseChars (c :: rest)
  | c :: rest => c :: camelCaseChars rest
  | [] => []

/-- The name in camel case for a name with dashes: `font-size` becomes `fontSize`. -/
def camelCase (name : String) : String := String.ofList (camelCaseChars name.toList)

theorem camelCaseChars_cons {c : Char} (h : c ≠ '-') (rest : List Char) :
    camelCaseChars (c :: rest) = c :: camelCaseChars rest := by
  rw [camelCaseChars]
  rintro d tail rfl
  exact absurd rfl h

/-- In the printed form of characters without dashes, each dash stands for a capital. -/
theorem camelCaseChars_flatMap {chars : List Char} (h : '-' ∉ chars) :
    camelCaseChars (chars.flatMap hyphenateChar) = chars := by
  induction chars with
  | nil => rfl
  | cons c rest ih =>
    rw [List.mem_cons, not_or] at h
    obtain ⟨hc, hrest⟩ := h
    rw [List.flatMap_cons]
    cases hupper : c.isUpper with
    | true =>
      rw [hyphenateChar_of_isUpper hupper, List.cons_append, List.cons_append, List.nil_append,
        camelCaseChars, if_pos (isLower_toLower hupper), toUpper_toLower hupper, ih hrest]
    | false =>
      rw [hyphenateChar_of_not_isUpper hupper, List.singleton_append,
        camelCaseChars_cons (Ne.symm hc), ih hrest]

/-- A name without dashes is read back from its printed form. -/
theorem camelCase_hyphenate (h : '-' ∉ name.toList) : camelCase (hyphenate name) = name := by
  rw [camelCase, toList_hyphenate, camelCaseChars_flatMap h, String.ofList_toList]

theorem hyphenate_inj (h : '-' ∉ name.toList) (h' : '-' ∉ other.toList) :
    hyphenate name = hyphenate other ↔ name = other := by
  constructor
  · intro heq
    rw [← camelCase_hyphenate h, heq, camelCase_hyphenate h']
  · rintro rfl
    rfl

/-! ## Names of one rule -/

theorem declaration_eq_nil_or {key : String} {value : Value} {out : List (String × String)}
    (h : declaration key value = .ok out) :
    out = [] ∨ out = [(hyphenate key, formatValue value)] := by
  unfold declaration at h
  split at h
  · cases h
    exact .inl rfl
  · split at h <;> cases h
    exact .inr rfl

namespace Item

variable {properties : Option Value.Entries} {selector : String}

/-- The names which a rule declares are the printed forms of some of its keys, in their order. -/
theorem exists_names_of_ofEntries {entries : Value.Entries}
    {out : List (String × String) × List Item} (h : ofEntries properties selector entries = .ok out) :
    ∃ names : List String, (names.map .str).Sublist (entries.map (·.1)) ∧
      out.1.map (·.1) = names.map hyphenate := by
  induction entries generalizing out with
  | nil =>
    cases h
    exact ⟨[], by simp⟩
  | cons entry rest ih =>
    obtain ⟨key, value⟩ := entry
    cases key with
    | str key =>
      cases hkey : isNestedKey key with
      | true =>
        rw [ofEntries_of_nested properties selector hkey] at h
        obtain ⟨items, -, h⟩ := bind_eq_ok_iff.1 h
        obtain ⟨tail, htail, h⟩ := bind_eq_ok_iff.1 h
        cases h
        obtain ⟨names, hsublist, hout⟩ := ih htail
        exact ⟨names, hsublist.cons _, hout⟩
      | false =>
        rw [ofEntries_of_not_nested properties selector hkey] at h
        obtain ⟨own, hown, h⟩ := bind_eq_ok_iff.1 h
        obtain ⟨tail, htail, h⟩ := bind_eq_ok_iff.1 h
        obtain ⟨meant, -, hdeclared⟩ := bind_eq_ok_iff.1 hown
        cases h
        obtain ⟨names, hsublist, hout⟩ := ih htail
        rcases declaration_eq_nil_or hdeclared with rfl | rfl
        · exact ⟨names, hsublist.cons _, hout⟩
        · exact ⟨key :: names, hsublist.cons_cons _, by simp [hout]⟩
    | _ => simp [ofEntries] at h

end Item

/-- Printing a name once more changes nothing, and no capital is left in it. What is printed for a
name is printed for its parts, one after the other. Different names without dashes are printed
differently, so that of the properties which one rule declares no two with such names become one,
whatever the rule declares beside them. -/
theorem hyphenate_keeps_apart :
    (∀ name, hyphenate (hyphenate name) = hyphenate name) ∧
    (∀ name, ∀ c ∈ (hyphenate name).toList, c.isUpper = false) ∧
    (∀ name other, hyphenate (name ++ other) = hyphenate name ++ hyphenate other) ∧
    (∀ name other, '-' ∉ name.toList → '-' ∉ other.toList →
      hyphenate name = hyphenate other → name = other) ∧
    (∀ properties selector entries declarations nested, (entries.map (·.1)).Nodup →
      Item.ofEntries properties selector entries = .ok (declarations, nested) →
      ∃ names : List String, (names.map .str).Sublist (entries.map (·.1)) ∧
        declarations.map (·.1) = names.map hyphenate ∧
        ((names.filter fun name => '-' ∉ name.toList).map hyphenate).Nodup) := by
  refine ⟨hyphenate_hyphenate, fun _ _ => isUpper_of_mem_hyphenate, hyphenate_append,
    fun _ _ h h' => (hyphenate_inj h h').1, ?_⟩
  intro properties selector entries declarations nested hkeys h
  obtain ⟨names, hsublist, hout⟩ := Item.exists_names_of_ofEntries h
  refine ⟨names, hsublist, hout, ?_⟩
  have hnames : names.Nodup := (hkeys.sublist hsublist).of_map
  refine List.Nodup.map_on ?_ (hnames.filter _)
  intro name hname other hother heq
  have hdashes := of_decide_eq_true (List.mem_filter.1 hname).2
  have hdashes' := of_decide_eq_true (List.mem_filter.1 hother).2
  exact (hyphenate_inj hdashes hdashes').1 heq

/-- A rule with capitals in front, after each other and of no ASCII, and one property twice. -/
def slide : Value.Entries :=
  [(.str "WebkitTransition", .str "none"), (.str "webkitTransition", .str "all"),
    (.str "&:hover", .map [(.str "color", .str "navy")]), (.str "gridÄRow", .str "1"),
    (.str "MSGrid", .str "2"), (.str "fontSize", .str "1em"), (.str "font-size", .str "2em")]

theorem hyphenate_keeps_slide_apart :
    ∃ declarations nested, Item.ofEntries none ".slide" slide = .ok (declarations, nested) ∧
      declarations.map (·.1) = ["-webkit-transition", "webkit-transition", "gridÄ-row",
        "-m-s-grid", "font-size", "font-size"] ∧
      ∃ names : List String, declarations.map (·.1) = names.map hyphenate ∧
        ((names.filter fun name => '-' ∉ name.toList).map hyphenate).Nodup := by
  obtain ⟨-, -, -, -, hrule⟩ := hyphenate_keeps_apart
  have hkeys : (slide.map (·.1)).Nodup := by simp [slide]
  obtain ⟨declarations, nested, h, hprinted⟩ : ∃ declarations nested,
      Item.ofEntries none ".slide" slide = .ok (declarations, nested) ∧
      declarations.map (·.1) = ["-webkit-transition", "webkit-transition", "gridÄ-row",
        "-m-s-grid", "font-size", "font-size"] := ⟨_, _, rfl, rfl⟩
  obtain ⟨names, -, hout, hnodup⟩ := hrule none ".slide" slide declarations nested hkeys h
  exact ⟨declarations, nested, h, hprinted, names, hout, hnodup⟩

end StyleTree.Css
