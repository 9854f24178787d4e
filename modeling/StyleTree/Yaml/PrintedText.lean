import StyleTree.Yaml.Printer
import StyleTree.Yaml.Reader

/-!
# Characters of YAML texts

The YAML text of a value holds nothing but line feeds and characters which are shown as they are:
all others are escaped. There is no half of a pair among them and no carriage return, so that the
text has bytes, and a file with these bytes is read as the text is.

This is all that is asked of a printer. How it lays out a text, where it puts quotes and for which
values it fails are its own matter.

## Main definitions

* `IsShown`: the texts of such characters.
* `Printing.Yields`: what a step of writing yields, if it does not fail, has a property.
* `Printer`: the ways to write values as such texts.

## Main statements

* `isShown_of_print`: the texts of values are such texts.
* `IsShown.encode?_eq`, `IsShown.readFile_eq`: such a text has bytes, from which it is read again.
-/

namespace StyleTree.Yaml

/-- Whether a character is shown as it is, or ends a line. -/
def isShown (c : Char) : Bool := c = '\n' || (Text.isPrintable c && isAllowed c)

/-- The text holds nothing but shown characters and line feeds. -/
def IsShown (s : String) : Prop := s.toList.all isShown = true

instance (s : String) : Decidable (IsShown s) := inferInstanceAs (Decidable (_ = true))

@[simp] theorem isShown_append {s t : String} : IsShown (s ++ t) ↔ IsShown s ∧ IsShown t := by
  simp [IsShown]

@[simp] theorem isShown_ofList {cs : List Char} :
    IsShown (String.ofList cs) ↔ cs.all isShown = true := by
  simp [IsShown]

theorem isShown_intercalate {s : String} {texts : List String} (hs : IsShown s)
    (h : ∀ t ∈ texts, IsShown t) : IsShown (s.intercalate texts) := by
  induction texts with
  | nil => rfl
  | cons t rest ih =>
    obtain ⟨ht, hrest⟩ := List.forall_mem_cons.1 h
    cases rest with
    | nil => simpa using ht
    | cons u rest =>
      rw [String.intercalate_cons_cons]
      simpa [ht, hs] using ih hrest

/-! ## ASCII -/

/-- The characters of ASCII which are no controls are shown. -/
theorem isShown_of_ascii {c : Char} (hleast : 32 ≤ c.toNat) (hmost : c.toNat ≤ 126) :
    isShown c = true := by
  have hallowed : isAllowed c = true := by simp [isAllowed, hleast, hmost]
  have hprintable : Text.isPrintable c = true := by
    have hlt : c.val < 127 := UInt32.lt_iff_toNat_lt.2 (Nat.lt_succ_of_le hmost)
    have hle : 32 ≤ c.val := UInt32.le_iff_toNat_le.2 hleast
    simp [Text.isPrintable, hlt, hle]
  simp [isShown, hallowed, hprintable]

theorem isShown_of_isNameChar {c : Char} (h : isNameChar c = true) : isShown c = true := by
  have hclass : ((decide (65 ≤ c.val ∧ c.val ≤ 90) || 97 ≤ c.val && c.val ≤ 122) ||
      48 ≤ c.val && c.val ≤ 57 || c = '-' || c = '_') = true := h
  simp only [Bool.or_eq_true, Bool.and_eq_true, decide_eq_true_eq, or_assoc,
    UInt32.le_iff_toNat_le] at hclass
  have hrange {least most : Nat} (hleast : 32 ≤ least) (hmost : most ≤ 126)
      (hc : least ≤ c.toNat ∧ c.toNat ≤ most) : isShown c = true :=
    isShown_of_ascii (Nat.le_trans hleast hc.1) (Nat.le_trans hc.2 hmost)
  rcases hclass with hupper | hlower | hdigit | rfl | rfl
  · exact hrange (by decide) (by decide) hupper
  · exact hrange (by decide) (by decide) hlower
  · exact hrange (by decide) (by decide) hdigit
  · decide
  · decide

theorem isShown_digitChar {n : Nat} (h : n < 16) : isShown n.digitChar = true := by
  revert n
  decide

/-- The digits of a number are shown. -/
@[simp] theorem all_isShown_toDigits {base : Nat} (hleast : 1 < base) (hmost : base ≤ 16)
    (n : Nat) : (Nat.toDigits base n).all isShown = true := by
  induction n using Nat.strongRecOn with
  | _ n ih =>
    rw [Nat.toDigits_eq_if hleast]
    split
    · next hn => simp [isShown_digitChar (Nat.lt_of_lt_of_le hn hmost)]
    · next hn =>
      have hdiv : n / base < n := Nat.div_lt_self (by omega) hleast
      have hmod : n % base < 16 := Nat.lt_of_lt_of_le (Nat.mod_lt n (by omega)) hmost
      simp [ih _ hdiv, isShown_digitChar hmod]

@[simp] theorem all_isShown_decimalDigits (n : Nat) : (decimalDigits n).all isShown = true :=
  all_isShown_toDigits (by decide) (by decide) n

@[simp] theorem isShown_repr (n : Nat) : IsShown n.repr := by
  simp [Nat.repr_eq_ofList_toDigits]

theorem isShown_toString_int (n : Int) : IsShown (toString n) := by
  cases n with
  | ofNat n => exact isShown_repr n
  | negSucc n => exact isShown_append.2 ⟨by decide, isShown_repr (n + 1)⟩

/-! ## Dates and numbers -/

theorem isShown_paddedDigits (width n : Nat) : IsShown (paddedDigits width n) := by
  simp +decide [paddedDigits]

theorem isShown_date (d : Date) : IsShown d.text := by
  simp +decide [Date.text, isShown_paddedDigits]

theorem isShown_offsetText (minutes : Int) : IsShown (Moment.offsetText minutes) := by
  unfold Moment.offsetText
  split <;> simp +decide [isShown_paddedDigits]

theorem isShown_moment (m : Moment) : IsShown m.text := by
  unfold Moment.text
  split <;> split <;> simp +decide [isShown_paddedDigits, isShown_date, isShown_offsetText]

theorem all_isShown_exponentPart (e : Int) : (NumberLayout.exponentPart e).all isShown = true := by
  unfold NumberLayout.exponentPart
  split <;> simp +decide

/-- A number is shown if its digits are. -/
theorem all_isShown_place (layout : NumberLayout) {digits : List Char} (first : Int)
    (h : digits.all isShown = true) : (layout.place digits first).all isShown = true := by
  have hexponent := all_isShown_exponentPart first
  have htake (n : Nat) : (digits.take n).all isShown = true := by
    rw [List.all_eq_true] at h ⊢
    exact fun c hc => h c (List.mem_of_mem_take hc)
  have hdrop (n : Nat) : (digits.drop n).all isShown = true := by
    rw [List.all_eq_true] at h ⊢
    exact fun c hc => h c (List.mem_of_mem_drop hc)
  unfold NumberLayout.place
  split
  · split
    · simp +decide [h]
    · dsimp only
      split <;> simp +decide [htake, hdrop]
  · split
    · rfl
    · split <;> simp_all +decide
    · simp_all +decide

theorem isShown_write (x : Float) : IsShown (realNumbers.write x) := by
  unfold NumberLayout.write
  split
  · decide
  · dsimp only
    split
    · split <;> simp +decide [all_isShown_place]
    · split
      · split <;> decide
      · split <;> decide

/-! ## Texts and bytes -/

theorem isShown_char {n : Nat} (h : n < 64) : isShown (Base64.char n) = true := by
  revert n
  decide

theorem all_isShown_encode (bytes : List UInt8) : (Base64.encode bytes).all isShown = true := by
  have hpadding : isShown '=' = true := by decide
  fun_induction Base64.encode bytes with
  | case1 => rfl
  | case2 a =>
    have ha := a.toNat_lt
    simp (disch := omega) [hpadding, isShown_char]
  | case3 a b =>
    have ha := a.toNat_lt
    have hb := b.toNat_lt
    simp (disch := omega) [hpadding, isShown_char]
  | case4 a b c rest ih =>
    have ha := a.toNat_lt
    have hb := b.toNat_lt
    have hc := c.toNat_lt
    simp (disch := omega) [ih, isShown_char]

theorem all_isShown_hexDigits (width n : Nat) : (Text.hexDigits width n).all isShown = true := by
  simp +decide [Text.hexDigits]

theorem all_isShown_escapeNumber (n : Nat) : (Text.escapeNumber n).all isShown = true := by
  unfold Text.escapeNumber
  split
  · simp +decide [all_isShown_hexDigits]
  · split <;> simp +decide [all_isShown_hexDigits]

theorem all_isShown_quoteChar (c : Char) : (quoteChar c).all isShown = true := by
  unfold quoteChar
  split
  · next h => rcases h with rfl | rfl <;> decide
  split
  · decide
  split
  · decide
  split
  · decide
  split
  · next h => simp_all [isShown]
  split
  · decide
  · exact all_isShown_escapeNumber _

/-- A text is shown, since what is not shown is escaped. -/
theorem isShown_printText (s : String) : IsShown (printText s) := by
  unfold printText
  split
  · next h =>
    simp only [isWord, Bool.and_eq_true, List.all_eq_true] at h
    exact List.all_eq_true.2 fun c hc => isShown_of_isNameChar (h.1.1 c hc)
  · simp +decide [quoteText, List.all_flatMap, all_isShown_quoteChar]

/-! ## Values -/

namespace Printing

variable {α β : Type} {P : α → Prop} {Q : β → Prop}

/-- What a step of writing yields, if it does not fail, has a property. -/
def Yields (P : α → Prop) (x : Printing α) : Prop :=
  ∀ ⦃labels a labels'⦄, x.run labels = .ok (a, labels') → P a

theorem yields_pure {a : α} (h : P a) : Yields P (pure a) := by
  rintro _ _ _ ⟨⟩
  exact h

theorem yields_throw (u : Unprintable) : Yields P (throw u) := by
  rintro _ _ _ ⟨⟩

theorem Yields.bind {x : Printing α} {f : α → Printing β} (hx : Yields P x)
    (hf : ∀ a, P a → Yields Q (f a)) : Yields Q (x >>= f) := by
  intro labels b labels' h
  rw [StateT.run_bind] at h
  cases hrun : x.run labels with
  | error u => simp [hrun, Bind.bind, Except.bind] at h
  | ok r => exact hf r.1 (hx hrun) (by simpa [hrun, Bind.bind, Except.bind] using h)

/-- A step whose result does not matter. -/
theorem yields_true (x : Printing α) : Yields (fun _ => True) x := fun _ _ _ _ => trivial

end Printing

open Printing

theorem isShown_commas {texts : List String} (h : ∀ t ∈ texts, IsShown t) :
    IsShown (", ".intercalate texts) :=
  isShown_intercalate (by decide) h

theorem isShown_flowKey {key : String} (h : IsShown key) : IsShown (flowKey key) := by
  unfold flowKey
  split <;> simp +decide [h]

theorem isShown_anchorName (label : Nat) : IsShown (anchorName label) := by
  simp +decide [anchorName]

theorem isShown_blockKey {indent key : String} (hindent : IsShown indent) (h : IsShown key) :
    IsShown (blockKey indent key) := by
  unfold blockKey
  split <;> simp +decide [h, hindent]

mutual

/-- A value on one line is shown. -/
theorem yields_flow : ∀ value : Value, Yields IsShown (flow value)
  | .null => yields_pure (by decide)
  | .bool b => yields_pure (by cases b <;> decide)
  | .int n => by
    rw [flow]
    split
    · exact yields_throw _
    · exact yields_pure (isShown_toString_int n)
  | .float x => yields_pure (isShown_write x)
  | .str s => yields_pure (isShown_printText s)
  | .date d => yields_pure (isShown_date d)
  | .moment m => yields_pure (isShown_moment m)
  | .list items => by
    refine (yields_flowItems items).bind fun texts h => yields_pure ?_
    simp +decide [isShown_commas h]
  | .tuple items => by
    refine (yields_flowItems items).bind fun texts h => yields_pure ?_
    simp +decide [isShown_commas h]
  | .map entries => by
    refine (yields_flowEntries entries).bind fun texts h => yields_pure ?_
    simp +decide [isShown_commas h]
  | .bytes content => yields_pure (by simp +decide [all_isShown_encode])
  | .set items => by
    refine (yields_flowItems items).bind fun texts h => yields_pure ?_
    have hkeys : ∀ t ∈ texts.map fun t => flowKey t ++ "null", IsShown t := by
      simpa +decide using fun t ht => isShown_flowKey (h t ht)
    simp +decide [isShown_commas hkeys]
  | .loop label collection => by
    refine (yields_true _).bind fun labels _ => ?_
    split
    · exact yields_pure (by simp +decide [isShown_anchorName])
    · refine (yields_true _).bind fun _ _ => (yields_flow collection).bind fun text h => ?_
      exact yields_pure (by simp +decide [isShown_anchorName, h])
  | .again label _ => yields_pure (by simp +decide [isShown_anchorName])
  | .required _ => yields_throw _
  | .optional _ => yields_throw _
  | .constant _ => yields_throw _
termination_by structural value => value

theorem yields_flowItems :
    ∀ items : List Value, Yields (fun texts => ∀ t ∈ texts, IsShown t) (flowItems items)
  | [] => yields_pure (by simp)
  | item :: rest => by
    refine (yields_flow item).bind fun text htext => ?_
    exact (yields_flowItems rest).bind fun texts h => yields_pure (by simpa using ⟨htext, h⟩)
termination_by structural items => items

theorem yields_flowEntries : ∀ entries : List (Value × Value),
    Yields (fun texts => ∀ t ∈ texts, IsShown t) (flowEntries entries)
  | [] => yields_pure (by simp)
  | (key, value) :: rest => by
    refine (yields_flow key).bind fun keyText hkey => (yields_flow value).bind fun text htext => ?_
    refine (yields_flowEntries rest).bind fun texts h => yields_pure ?_
    simpa [isShown_flowKey hkey, htext] using h
termination_by structural entries => entries

end

/-- A value on the line of its key is shown. -/
theorem yields_line (before : String) (value : Value) (hbefore : IsShown before) :
    Yields IsShown (do
      let text ← flow value
      return before ++ text ++ "\n") :=
  (yields_flow value).bind fun text h => yields_pure (by simp +decide [h, hbefore])

mutual

/-- What stands behind the colon of a key is shown. -/
theorem yields_blockValue : ∀ (value : Value) {indent : String} (_ : IsShown indent),
    Yields IsShown (blockValue indent value)
  | .map entries, indent, hindent => by
    rw [blockValue]
    split
    · exact yields_pure (by decide)
    · refine (yields_blockEntries entries ?_).bind fun lines h => yields_pure ?_
      · simp +decide [hindent]
      · simp +decide [h]
  | .null, _, _ | .bool _, _, _ | .int _, _, _ | .float _, _, _ | .str _, _, _ | .date _, _, _
  | .moment _, _, _ | .list _, _, _ | .tuple _, _, _ | .bytes _, _, _ | .set _, _, _
  | .loop _ _, _, _ | .again _ _, _, _ | .required _, _, _ | .optional _, _, _
  | .constant _, _, _ => yields_line " " _ (by decide)
termination_by structural value => value

theorem yields_blockEntries : ∀ (entries : List (Value × Value)) {indent : String}
    (_ : IsShown indent), Yields IsShown (blockEntries indent entries)
  | [], _, _ => yields_pure (by decide)
  | (key, value) :: rest, indent, hindent => by
    refine (yields_flow key).bind fun keyText hkey => ?_
    refine (yields_blockValue value hindent).bind fun text htext => ?_
    refine (yields_blockEntries rest hindent).bind fun lines h => yields_pure ?_
    simp [isShown_blockKey hindent hkey, htext, h]
termination_by structural entries => entries

end

theorem yields_printTop (value : Value) : Yields IsShown (printTop value) := by
  unfold printTop
  split
  · split
    · exact yields_pure (by decide)
    · exact yields_blockEntries _ (by decide)
  · exact (yields_flow _).bind fun text h => yields_pure (by simp +decide [h])

/-- The text of a value is shown. -/
theorem isShown_of_print {value : Value} {text : String} (h : print value = .ok text) :
    IsShown text := by
  cases hrun : (printTop value).run [] with
  | error u =>
    change Functor.map (·.1) ((printTop value).run []) = _ at h
    rw [hrun] at h
    cases h
  | ok r =>
    change Functor.map (·.1) ((printTop value).run []) = _ at h
    rw [hrun] at h
    cases h
    exact yields_printTop value hrun

/-- A way to write values as YAML texts of shown characters. -/
structure Printer where
  print : Value → Except Unprintable String
  isShown_of_print {value : Value} {text : String} : print value = .ok text → IsShown text

/-- The printer with maps in block style and all other collections in flow style. -/
def Printer.compact : Printer := ⟨Yaml.print, Yaml.isShown_of_print⟩

instance : Inhabited Printer := ⟨.compact⟩

/-! ## Reading shown texts -/

/-- A half of a pair is not shown. -/
theorem half?_eq_none {c : Char} (h : isShown c = true) : Text.half? c = none := by
  unfold Text.half?
  split
  · next hhalf =>
    have hlast : (918000, 1114111) ∈ Text.unprintableRanges := by decide +kernel
    have hoffset : Text.halfOffset = 0x100000 := rfl
    have hrange : 0xd800 + Text.halfOffset ≤ c.toNat ∧ c.toNat ≤ 0xdfff + Text.halfOffset := by
      simpa using hhalf
    have hline : c ≠ '\n' := by
      rintro rfl
      exact absurd hrange.1 (by decide)
    have hlarge : ¬ c.val < 127 := by
      rw [UInt32.lt_iff_toNat_lt]
      change ¬ c.toNat < 127
      omega
    have hany : Text.unprintableRanges.any (fun r => r.1 ≤ c.toNat && c.toNat ≤ r.2) = true :=
      List.any_eq_true.2 ⟨_, hlast, by simp only [Bool.and_eq_true, decide_eq_true_eq]; omega⟩
    have hrefused : Text.isPrintable c = false := by
      rw [Text.isPrintable, if_neg hlarge, hany, Bool.not_true]
    simp [isShown, hline, hrefused] at h
  · rfl

theorem halves?_eq_none {isSpared : Nat → Bool} {position : Nat} {cs : List Char}
    (h : cs.all isShown = true) : Utf8.halves? isSpared position cs = none := by
  induction cs generalizing position with
  | nil => rfl
  | cons c cs ih =>
    rw [List.all_cons, Bool.and_eq_true] at h
    rw [Utf8.halves?, half?_eq_none h.1]
    exact ih h.2

/-- A shown text has bytes. -/
theorem IsShown.encode?_eq {text : String} (h : IsShown text) :
    Utf8.encode? text = .ok (Utf8.encode text) := by
  rw [Utf8.encode?, halves?_eq_none h]

/-- A file with the bytes of a shown text is read as the text is. -/
theorem IsShown.readFile_eq {text : String} (h : IsShown text) :
    readFile (Utf8.encode text) = read text := by
  have hmem : ∀ c ∈ text.toList, isShown c = true := List.all_eq_true.1 h
  have hallowed : ∀ c ∈ text.toList, isAllowed c = true := by
    intro c hc
    rcases Bool.or_eq_true_iff.1 (hmem c hc) with hline | hshown
    · simp [isAllowed, of_decide_eq_true hline]
    · exact (Bool.and_eq_true_iff.1 hshown).2
  have hreturn : '\r' ∉ text.toList := fun hr => absurd (hmem _ hr) (by decide)
  rw [readFile, read, Source.ofFile_encode, Text.unifyLineEnds_of_not_mem hreturn,
    Source.ofChars_of_allowed hallowed, Source.ofText, if_pos (List.all_eq_true.2 hallowed)]

end StyleTree.Yaml
