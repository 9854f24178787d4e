import Mathlib.Data.List.Forall2
import Mathlib.Data.List.Induction
import StyleTree.Proofs.GeneratedNames

/-!
# Histories of an engine

The sheets of an engine are reached by their places and through the bindings which were made with
it. What has become of each of them can be told from the requests alone: a sheet has what it was
made with, it is attached if it was not detached since it was attached, and, if it is linked, it has
the properties of the last update made on it. Nothing else shows in its style sheet.

## Main definitions

* `Engine.Session`: an engine, and the bindings which were made with it.
* `Engine.Request`, `Engine.Session.run`: what is asked of a session, and the session after that.
* `Engine.Session.Since`: something happened in a run, and something else did not happen after it.
* `Engine.Session.Tells`: what the requests of a run tell of a session.

## Main statements

* `Engine.sheet?_step`: what an operation does to each sheet.
* `Engine.Session.tells_run`: a run tells all that can be seen of the sheets.
-/

namespace StyleTree

/-! ## Outcomes for each item of a list -/

section MapM

variable {α β ε : Type} {f : α → Except ε β}

/-- All items have a result. -/
theorem mapM_eq_ok_iff {items : List α} {results : List β} :
    items.mapM f = .ok results ↔ List.Forall₂ (fun x y => f x = .ok y) items results := by
  induction items generalizing results with
  | nil => cases results <;> simp [pure, Except.pure]
  | cons x rest ih =>
    rw [List.mapM_cons, List.forall₂_cons_left_iff]
    cases hx : f x with
    | error e => simp [bind, Except.bind]
    | ok y =>
      cases hrest : rest.mapM f with
      | error e =>
        have hnone : ∀ ys, ¬ List.Forall₂ (fun x y => f x = .ok y) rest ys := by
          intro ys hys
          rw [← ih, hrest] at hys
          cases hys
        simp [bind, Except.bind, hnone]
      | ok ys =>
        have hys : List.Forall₂ (fun x y => f x = .ok y) rest ys := ih.1 hrest
        simp [bind, Except.bind, pure, Except.pure, ← ih, hrest, eq_comm]

/-- One item has none. -/
theorem exists_mapM_eq_error_iff {items : List α} :
    (∃ e, items.mapM f = .error e) ↔ ∃ x ∈ items, ∃ e, f x = .error e := by
  induction items with
  | nil => simp [pure, Except.pure]
  | cons x rest ih =>
    rw [List.mapM_cons, List.exists_mem_cons_iff, ← ih]
    cases f x with
    | error e => simp [bind, Except.bind]
    | ok y => cases rest.mapM f <;> simp [bind, Except.bind, pure, Except.pure]

end MapM

namespace Sheet

/-- The style sheet depends on nothing else than the place, the tree and the properties. -/
theorem css_congr {s t : Sheet} (hindex : s.index = t.index) (htree : s.tree = t.tree)
    (hproperties : s.properties = t.properties) : s.css = t.css := by
  unfold css items named
  rw [hindex, htree, hproperties]

end Sheet

namespace Engine

theorem css_eq_ok_iff {e : Engine} {text : String} :
    e.css = .ok text ↔ ∃ texts, List.Forall₂ (fun s t => s.css = .ok t) e.attachedSheets texts ∧
      text = String.join texts := by
  unfold css
  simp only [← mapM_eq_ok_iff]
  cases e.attachedSheets.mapM Sheet.css <;> simp [Bind.bind, Except.bind, pure, Except.pure, eq_comm]

theorem exists_css_eq_error_iff {e : Engine} :
    (∃ f, e.css = .error f) ↔ ∃ s ∈ e.attachedSheets, ∃ f, s.css = .error f := by
  rw [← exists_mapM_eq_error_iff]
  unfold css
  cases e.attachedSheets.mapM Sheet.css <;> simp [Bind.bind, Except.bind, pure, Except.pure]

/-! ## Single operations -/

/-- What an operation makes of the sheet at a place. -/
def Operation.change (place : Nat) (o : Operation) (s : Sheet) : Sheet :=
  match o with
  | .attach sheet => if sheet = place then s.attach else s
  | .detach sheet => if sheet = place then s.detach else s
  | .update sheet properties => if sheet = place then s.update properties else s
  | .create .. | .compile .. | .bind .. => s

/-- The sheet which an operation makes, if it makes one, at a place. -/
def Operation.made? (place : Nat) : Operation → Option Sheet
  | .create tree link => some { index := place, tree, link }
  | .compile description link =>
    match Compiled.ofDescription description with
    | .ok c => some { index := place, tree := c.ruleTree.entries, link }
    | .error _ => none
  | .bind c dynamic =>
    some { index := place, tree := c.ruleTree.entries, link := dynamic, attached := true }
  | .attach _ | .detach _ | .update .. => none

/-- The operation attaches the sheet at a place. A sheet is attached when it is bound. -/
def Operation.Attaches (place : Nat) (e : Engine) : Operation → Prop
  | .attach sheet => sheet = place ∧ place < e.sheets.length
  | .bind .. => place = e.sheets.length
  | _ => False

/-- The operation detaches the sheet at a place. -/
def Operation.Detaches (place : Nat) (e : Engine) : Operation → Prop
  | .detach sheet => sheet = place ∧ place < e.sheets.length
  | _ => False

/-- The operation updates the sheet at a place, which may have no effect. -/
def Operation.Updates (place : Nat) (properties : Value.Entries) (e : Engine) : Operation → Prop
  | .update sheet new => sheet = place ∧ place < e.sheets.length ∧ new = properties
  | _ => False

variable {e : Engine} {o : Operation} {place : Nat} {s t : Sheet}

theorem sheet?_concat (e : Engine) (new : Sheet) (place : Nat) :
    sheet? ⟨e.sheets ++ [new]⟩ place =
      (e.sheet? place).or (if place = e.sheets.length then some new else none) := by
  grind [sheet?]

theorem sheet?_modify (e : Engine) (index place : Nat) (f : Sheet → Sheet) :
    (e.modify index f).sheet? place =
      (e.sheet? place).map fun s => if index = place then f s else s := by
  grind [sheet?, Engine.modify]

/-- An operation changes the sheets which are there and makes at most one, behind all of them. -/
theorem sheet?_step (e : Engine) (o : Operation) (place : Nat) :
    (e.step o).sheet? place = ((e.sheet? place).map fun s => o.change place s).or
      (if place = e.sheets.length then o.made? place else none) := by
  cases o with
  | create tree link =>
    rw [step, Engine.create, sheet?_concat]
    split <;> simp_all [Operation.made?, Operation.change]
  | compile description link =>
    rw [step, Operation.made?]
    cases Compiled.ofDescription description with
    | ok c =>
      simp only [Engine.create, sheet?_concat]
      split <;> simp_all [Operation.change]
    | error f => simp [Operation.change]
  | bind c dynamic =>
    rw [step, Engine.bind, sheet?_concat]
    split <;> simp_all [Operation.made?, Operation.change]
  | attach sheet | detach sheet | update sheet properties =>
    simp [step, attach, detach, update, sheet?_modify, Operation.change, Operation.made?]

theorem length_le_step (e : Engine) (o : Operation) :
    e.sheets.length ≤ (e.step o).sheets.length := by
  cases o with
  | compile description link =>
    rw [step]
    split <;> simp
  | bind c dynamic => simp [step, Engine.bind]
  | _ => simp [step, attach, detach, update]

theorem tree_change (place : Nat) (o : Operation) (s : Sheet) :
    (o.change place s).tree = s.tree ∧ (o.change place s).link = s.link := by
  cases o <;> grind [Operation.change, Sheet.attach, Sheet.detach, Sheet.update]

theorem attached_change (h : place < e.sheets.length) :
    (o.change place s).attached = true ↔
      o.Attaches place e ∨ s.attached = true ∧ ¬ o.Detaches place e := by
  cases o <;> grind [Operation.change, Operation.Attaches, Operation.Detaches, Sheet.attach,
    Sheet.detach, Sheet.update]

theorem properties_change (h : place < e.sheets.length) {properties : Value.Entries} :
    (o.change place s).properties = some properties ↔
      s.link = true ∧ o.Updates place properties e ∨
        s.properties = some properties ∧ ¬ (s.link = true ∧ ∃ new, o.Updates place new e) := by
  cases o <;> simp only [Operation.change, Operation.Updates] <;>
    grind [Sheet.attach, Sheet.detach, Sheet.update]

/-- A new sheet has no properties, and it is attached if it is made by binding. -/
theorem made?_eq_some (h : o.made? e.sheets.length = some t) :
    (t.attached = true ↔ o.Attaches e.sheets.length e) ∧ t.properties = none ∧
      ∀ new, ¬ o.Updates e.sheets.length new e := by
  unfold Operation.made? at h
  cases o <;> grind [Operation.Attaches, Operation.Updates]

/-! ## Sessions -/

/-- The binding which an operation makes, if it makes one. -/
def binding? (e : Engine) : Operation → Option Binding
  | .bind c dynamic => (e.bind c dynamic).2.toOption
  | _ => none

/-- An engine, and the bindings which were made with it, in the order of their making. -/
structure Session where
  engine : Engine := {}
  bindings : List Binding := []

/-- What is looked at, of a session or of one of its bindings. -/
inductive Reading where
  | css (sheet : Nat)
  | allCss
  | attached
  | bound (binding : Nat) (className : String)
  | resolved (binding : Nat) (className : String) (variant : Value)

/-- What is asked of a session. -/
inductive Request where
  | operate (o : Operation)
  | updateBound (binding : Nat) (properties : Value.Entries)
  | detachBound (binding : Nat)
  | read (r : Reading)

/-- What a session shows. -/
inductive Reply where
  /-- There is no such sheet, binding or resolver. -/
  | missing
  | css (outcome : Except Css.RenderFault String)
  | sheets (places : List Nat)
  | bound (found : Option BoundClass)
  | resolved (outcome : Value × Option String)

namespace Session

/-- What is seen when a session is looked at. -/
def reply (d : Session) : Reading → Reply
  | .css sheet => (d.engine.sheet? sheet).elim .missing fun s => .css s.css
  | .allCss => .css d.engine.css
  | .attached => .sheets (d.engine.attachedSheets.map (·.index))
  | .bound binding className =>
    d.bindings[binding]?.elim .missing fun b => .bound (b.find? className)
  | .resolved binding className variant =>
    match d.bindings[binding]?.bind (·.find? className) with
    | some (.resolver r) => .resolved (r.find variant)
    | _ => .missing

/-- The operation to which a request comes down. A request of a binding is one of its sheet. -/
def operation? (d : Session) : Request → Option Operation
  | .operate o => some o
  | .updateBound binding properties =>
    d.bindings[binding]?.map fun b => .update b.sheet properties
  | .detachBound binding => d.bindings[binding]?.map fun b => .detach b.sheet
  | .read _ => none

/-- The session after a request. -/
def step (d : Session) (r : Request) : Session :=
  match d.operation? r with
  | some o => ⟨d.engine.step o, d.bindings ++ (d.engine.binding? o).toList⟩
  | none => d

/-- A new session after some requests. -/
def run (requests : List Request) : Session := requests.foldl step {}

variable {d : Session} {r : Request} {requests : List Request} {P Q : Engine → Operation → Prop}

@[simp] theorem run_concat (requests : List Request) (r : Request) :
    run (requests ++ [r]) = (run requests).step r := by
  simp [run]

theorem step_of_some (h : d.operation? r = some o) : (d.step r).engine = d.engine.step o := by
  rw [step, h]

theorem step_of_none (h : d.operation? r = none) : d.step r = d := by
  rw [step, h]

/-- The request comes down to an operation with a property. -/
def Does (P : Engine → Operation → Prop) (d : Session) (r : Request) : Prop :=
  ∃ o, d.operation? r = some o ∧ P d.engine o

/-- An operation with a property is done in a run, after some requests. -/
def Happens (P : Engine → Operation → Prop) (requests : List Request) (i : Nat) : Prop :=
  ∃ r, requests[i]? = some r ∧ (run (requests.take i)).Does P r

/-- An operation of one kind is done in a run, and none of another kind is done after it. -/
def Since (P Q : Engine → Operation → Prop) (requests : List Request) : Prop :=
  ∃ i, Happens P requests i ∧ ∀ j, Happens Q requests j → j ≤ i

theorem happens_concat {i : Nat} : Happens P (requests ++ [r]) i ↔
    Happens P requests i ∨ i = requests.length ∧ (run requests).Does P r := by
  unfold Happens
  by_cases hi : i < requests.length
  · have hne : i ≠ requests.length := by omega
    rw [List.getElem?_append_left hi, List.take_append_of_le_length (by omega)]
    simp [hne]
  · have hnone : requests[i]? = none := List.getElem?_eq_none (by omega)
    rw [List.getElem?_append_right (by omega)]
    by_cases hlast : i = requests.length
    · simp [hlast]
    · have hlate : [r][i - requests.length]? = none := List.getElem?_eq_none (by simp; omega)
      simp [hnone, hlate, hlast]

theorem Happens.lt_length {i : Nat} (h : Happens P requests i) : i < requests.length := by
  obtain ⟨r, hr, -⟩ := h
  exact (List.getElem?_eq_some_iff.1 hr).1

/-- The last request does one thing, or it does not do the other thing and what was done before
counts. -/
theorem since_concat : Since P Q (requests ++ [r]) ↔
    (run requests).Does P r ∨ Since P Q requests ∧ ¬ (run requests).Does Q r := by
  unfold Since
  simp only [happens_concat]
  constructor
  · rintro ⟨i, hi | ⟨rfl, hdoes⟩, hlast⟩
    · refine .inr ⟨⟨i, hi, fun j hj => hlast j (.inl hj)⟩, fun hlate => ?_⟩
      have hle := hlast requests.length (.inr ⟨rfl, hlate⟩)
      have hlt := hi.lt_length
      omega
    · exact .inl hdoes
  · rintro (hdoes | ⟨⟨i, hi, hlast⟩, hnot⟩)
    · refine ⟨requests.length, .inr ⟨rfl, hdoes⟩, ?_⟩
      rintro j (hj | ⟨rfl, -⟩)
      · exact Nat.le_of_lt hj.lt_length
      · exact Nat.le_refl _
    · refine ⟨i, .inl hi, ?_⟩
      rintro j (hj | ⟨-, hlate⟩)
      · exact hlast j hj
      · exact absurd hlate hnot

/-! ## What a run tells of a sheet -/

theorem does_of_some (h : d.operation? r = some o) : d.Does P r ↔ P d.engine o := by
  simp [Does, h]

theorem not_does_of_none (h : d.operation? r = none) : ¬ d.Does P r := by
  simp [Does, h]

theorem length_le_of_step (d : Session) (r : Request) :
    d.engine.sheets.length ≤ (d.step r).engine.sheets.length := by
  cases h : d.operation? r with
  | none => simp [step_of_none h]
  | some o =>
    rw [step_of_some h]
    exact length_le_step d.engine o

/-- A sheet to which something was done in a run is there after it. -/
theorem lt_length_of_since (hP : ∀ e o, P e o → place < (Engine.step e o).sheets.length)
    (h : Since P Q requests) : place < (run requests).engine.sheets.length := by
  induction requests using List.reverseRecOn with
  | nil =>
    obtain ⟨i, hi, -⟩ := h
    exact absurd hi.lt_length (Nat.not_lt_zero i)
  | append_singleton rest r ih =>
    rw [run_concat]
    rcases since_concat.1 h with ⟨o, ho, hdoes⟩ | ⟨hrest, -⟩
    · rw [step_of_some ho]
      exact hP _ _ hdoes
    · exact Nat.lt_of_lt_of_le (ih hrest) (length_le_of_step _ r)

theorem lt_length_of_attaches (h : o.Attaches place e) : place < (e.step o).sheets.length := by
  have hle := length_le_step e o
  cases o with
  | attach sheet =>
    obtain ⟨-, hlt⟩ := h
    omega
  | bind c dynamic =>
    have hplace : place = e.sheets.length := h
    simp [hplace, Engine.step, Engine.bind]
  | _ => cases h

theorem lt_length_of_updates {properties : Value.Entries} (h : o.Updates place properties e) :
    place < (e.step o).sheets.length := by
  have hle := length_le_step e o
  cases o with
  | update sheet new =>
    obtain ⟨-, hlt, -⟩ := h
    omega
  | _ => cases h

/-- The operation updates the sheet at a place, whatever the properties are. -/
def IsUpdated (place : Nat) (e : Engine) (o : Operation) : Prop :=
  ∃ new, o.Updates place new e

/-- Whether a sheet is attached, and what its properties are, as the requests of a run tell. -/
structure IsTold (requests : List Request) (place : Nat) (s : Sheet) : Prop where
  attached_iff : s.attached = true ↔
    Since (Operation.Attaches place) (Operation.Detaches place) requests
  properties_eq_some_iff : ∀ properties, s.properties = some properties ↔
    s.link = true ∧ Since (Operation.Updates place properties) (IsUpdated place) requests

/-- A request which comes down to no operation tells nothing. -/
theorem IsTold.concat_of_none (h : IsTold requests place s)
    (hr : (run requests).operation? r = none) : IsTold (requests ++ [r]) place s where
  attached_iff := by simp [since_concat, not_does_of_none hr, h.attached_iff]
  properties_eq_some_iff := by
    simp [since_concat, not_does_of_none hr, h.properties_eq_some_iff]

theorem IsTold.concat_of_some (h : IsTold requests place s)
    (hplace : place < (run requests).engine.sheets.length)
    (ho : (run requests).operation? r = some o) :
    IsTold (requests ++ [r]) place (o.change place s) where
  attached_iff := by
    rw [since_concat, does_of_some ho, does_of_some ho, attached_change hplace, h.attached_iff]
  properties_eq_some_iff properties := by
    rw [since_concat, does_of_some ho, does_of_some ho, properties_change hplace,
      h.properties_eq_some_iff, (tree_change place o s).2]
    unfold IsUpdated
    tauto

/-- Nothing was done to a new sheet before it was made. -/
theorem isTold_of_made (ho : (run requests).operation? r = some o)
    (hmade : o.made? (run requests).engine.sheets.length = some t) :
    IsTold (requests ++ [r]) (run requests).engine.sheets.length t := by
  obtain ⟨hattached, hproperties, hupdates⟩ := made?_eq_some hmade
  have hnone {P Q : Engine → Operation → Prop}
      (hP : ∀ e o, P e o → (run requests).engine.sheets.length < (Engine.step e o).sheets.length) :
      ¬ Since P Q requests := fun h => Nat.lt_irrefl _ (lt_length_of_since hP h)
  refine ⟨?_, fun properties => ?_⟩
  · rw [since_concat, does_of_some ho, hattached]
    simp [hnone fun _ _ => lt_length_of_attaches]
  · rw [since_concat, does_of_some ho, hproperties]
    simp [hnone fun _ _ => lt_length_of_updates, hupdates properties]

/-- A sheet is a changed one, or it is the one which is made. -/
theorem sheet?_step_eq_some (h : (d.step r).engine.sheet? place = some t) :
    (d.operation? r = none ∧ d.engine.sheet? place = some t) ∨
    (∃ o s, d.operation? r = some o ∧ d.engine.sheet? place = some s ∧ t = o.change place s) ∨
    ∃ o, d.operation? r = some o ∧ place = d.engine.sheets.length ∧ o.made? place = some t := by
  cases hr : d.operation? r with
  | none =>
    rw [step_of_none hr] at h
    exact .inl ⟨rfl, h⟩
  | some o =>
    rw [step_of_some hr, sheet?_step] at h
    cases hs : d.engine.sheet? place with
    | some s =>
      obtain rfl : o.change place s = t := by simpa [hs] using h
      exact .inr (.inl ⟨o, s, rfl, rfl, rfl⟩)
    | none =>
      obtain ⟨hplace, hmade⟩ : place = d.engine.sheets.length ∧ o.made? place = some t := by
        simpa [hs] using h
      exact .inr (.inr ⟨o, rfl, hplace, hmade⟩)

theorem lt_length_of_sheet? (h : e.sheet? place = some s) : place < e.sheets.length :=
  (List.getElem?_eq_some_iff.1 h).1

/-- All sheets are told by the run. -/
theorem isTold_run (h : (run requests).engine.sheet? place = some s) :
    IsTold requests place s := by
  induction requests using List.reverseRecOn generalizing s with
  | nil => cases h
  | append_singleton rest r ih =>
    rw [run_concat] at h
    rcases sheet?_step_eq_some h with ⟨hr, hs⟩ | ⟨o, old, ho, hs, rfl⟩ | ⟨o, ho, rfl, hmade⟩
    · exact (ih hs).concat_of_none hr
    · exact (ih hs).concat_of_some (lt_length_of_sheet? hs) ho
    · exact isTold_of_made ho hmade

/-! ## What requests leave as it is -/

/-- A sheet keeps its tree and its link. -/
theorem exists_sheet?_step (hs : d.engine.sheet? place = some s) (r : Request) :
    ∃ t, (d.step r).engine.sheet? place = some t ∧ t.tree = s.tree ∧ t.link = s.link := by
  cases hr : d.operation? r with
  | none => exact ⟨s, by rw [step_of_none hr, hs], rfl, rfl⟩
  | some o =>
    refine ⟨o.change place s, ?_, tree_change place o s⟩
    simp [step_of_some hr, sheet?_step, hs]

theorem exists_sheet?_foldl (hs : d.engine.sheet? place = some s) (requests : List Request) :
    ∃ t, (requests.foldl step d).engine.sheet? place = some t ∧ t.tree = s.tree ∧
      t.link = s.link := by
  induction requests generalizing d s with
  | nil => exact ⟨s, hs, rfl, rfl⟩
  | cons r rest ih =>
    obtain ⟨t, ht, htree, hlink⟩ := exists_sheet?_step hs r
    obtain ⟨u, hu, htree', hlink'⟩ := ih ht
    exact ⟨u, hu, htree'.trans htree, hlink'.trans hlink⟩

theorem isNumbered_run (requests : List Request) : (run requests).engine.IsNumbered := by
  induction requests using List.reverseRecOn with
  | nil => exact isNumbered_empty
  | append_singleton rest r ih =>
    rw [run_concat]
    cases hr : (run rest).operation? r with
    | none => rwa [step_of_none hr]
    | some o =>
      rw [step_of_some hr]
      exact ih.step o

/-- The request attaches, detaches or updates the sheet at a place. -/
def Concerns (d : Session) (place : Nat) : Request → Prop :=
  d.Does fun e o => o.Attaches place e ∨ o.Detaches place e ∨ IsUpdated place e o

theorem change_eq_self (hplace : place < e.sheets.length)
    (h : ¬ (o.Attaches place e ∨ o.Detaches place e ∨ IsUpdated place e o)) (s : Sheet) :
    o.change place s = s := by
  rw [not_or, not_or] at h
  obtain ⟨hattach, hdetach, hupdate⟩ := h
  cases o with
  | attach sheet => exact if_neg fun hsheet => hattach ⟨hsheet, hplace⟩
  | detach sheet => exact if_neg fun hsheet => hdetach ⟨hsheet, hplace⟩
  | update sheet new => exact if_neg fun hsheet => hupdate ⟨new, hsheet, hplace, rfl⟩
  | _ => rfl

theorem sheet?_step_of_not_concerns (hs : d.engine.sheet? place = some s)
    (h : ¬ d.Concerns place r) : (d.step r).engine.sheet? place = some s := by
  cases hr : d.operation? r with
  | none => rw [step_of_none hr, hs]
  | some o =>
    have hsame : o.change place s = s := by
      refine change_eq_self (lt_length_of_sheet? hs) (fun hconcerns => h ?_) s
      exact (does_of_some hr).2 hconcerns
    simp [step_of_some hr, sheet?_step, hs, hsame]

/-- Updates of a sheet which is not linked leave everything as it is. -/
theorem step_of_unlinked {properties : Value.Entries}
    (hr : d.operation? r = some (.update place properties))
    (hs : d.engine.sheet? place = some s) (hlink : s.link = false) : d.step r = d := by
  have hsheets : d.engine.sheets.modify place (Sheet.update · properties) = d.engine.sheets := by
    refine List.ext_getElem? fun i => ?_
    rw [List.getElem?_modify]
    split
    · next hi =>
      subst hi
      have hs : d.engine.sheets[place]? = some s := hs
      simp [hs, Sheet.update, hlink]
    · simp
  have hengine : d.engine.step (.update place properties) = d.engine := by
    rw [Engine.step, Engine.update, Engine.modify, hsheets]
  rw [step, hr]
  simp [hengine, binding?]

/-! ## What a run tells of a session -/

/-- What the requests of a run tell of the session after it. -/
structure Tells (requests : List Request) (d : Session) : Prop where
  /-- A sheet which was there at some point is there, in its place, with its tree and its link. -/
  kept : ∀ i place s, (run (requests.take i)).engine.sheet? place = some s →
    ∃ t, d.engine.sheet? place = some t ∧ t.index = place ∧ t.tree = s.tree ∧ t.link = s.link
  /-- In the order of their making, the attached sheets are those which were not detached since they
  were attached. -/
  attachedSheets_eq : open Classical in d.engine.attachedSheets = d.engine.sheets.filter fun s =>
    Since (Operation.Attaches s.index) (Operation.Detaches s.index) requests
  /-- The style sheets of the attached sheets stand one after the other. -/
  css_eq_ok_iff : ∀ text, d.reply .allCss = .css (.ok text) ↔
    ∃ texts, List.Forall₂ (fun s t => s.css = .ok t) d.engine.attachedSheets texts ∧
      text = String.join texts
  css_eq_error_iff : (∃ f, d.reply .allCss = .css (.error f)) ↔
    ∃ s ∈ d.engine.attachedSheets, ∃ f, s.css = .error f
  /-- Sheets in one place of two engines, with the same tree and link and, if they are linked, the
  same last update, have the same style sheet. -/
  css_eq : ∀ place s others t, d.engine.sheet? place = some s →
    (run others).engine.sheet? place = some t → s.tree = t.tree → s.link = t.link →
    (s.link = true → ∀ properties,
      (Since (Operation.Updates place properties) (IsUpdated place) requests ↔
        Since (Operation.Updates place properties) (IsUpdated place) others)) →
    d.reply (.css place) = .css s.css ∧ (run others).reply (.css place) = .css s.css
  read : ∀ reading, d.step (.read reading) = d
  unlinked : ∀ r place s properties, d.operation? r = some (.update place properties) →
    d.engine.sheet? place = some s → s.link = false → d.step r = d
  others : ∀ r place s, d.engine.sheet? place = some s → ¬ d.Concerns place r →
    (d.step r).engine.sheet? place = some s

theorem css_eq_of_isTold {others : List Request} (hs : IsTold requests place s)
    (ht : IsTold others place t) (hindex : s.index = t.index) (htree : s.tree = t.tree)
    (hlink : s.link = t.link)
    (hupdates : s.link = true → ∀ properties,
      (Since (Operation.Updates place properties) (IsUpdated place) requests ↔
        Since (Operation.Updates place properties) (IsUpdated place) others)) :
    s.css = t.css := by
  refine Sheet.css_congr hindex htree (Option.ext fun properties => ?_)
  rw [hs.properties_eq_some_iff, ht.properties_eq_some_iff, ← hlink]
  exact and_congr_right fun h => hupdates h properties

/-- Whatever is asked of a new session: the requests tell which sheets it has, which of them are
attached, and what their style sheets depend on. -/
theorem tells_run (requests : List Request) : Tells requests (run requests) where
  kept i place s hs := by
    obtain ⟨t, ht, hkept⟩ := exists_sheet?_foldl hs (requests.drop i)
    rw [run, ← List.foldl_append, List.take_append_drop] at ht
    exact ⟨t, ht, isNumbered_run requests place t ht, hkept⟩
  attachedSheets_eq := by
    classical
    refine List.filter_congr fun s hs => ?_
    obtain ⟨place, hplace⟩ := List.mem_iff_getElem?.1 hs
    have hindex := isNumbered_run requests place s hplace
    rw [Bool.eq_iff_iff, decide_eq_true_iff, hindex]
    exact (isTold_run hplace).attached_iff
  css_eq_ok_iff text := by
    rw [reply, Reply.css.injEq]
    exact Engine.css_eq_ok_iff
  css_eq_error_iff := by
    simp only [reply, Reply.css.injEq]
    exact Engine.exists_css_eq_error_iff
  css_eq place s others t hs ht htree hlink hupdates := by
    have hindex := (isNumbered_run requests place s hs).trans (isNumbered_run others place t ht).symm
    have hcss := css_eq_of_isTold (isTold_run hs) (isTold_run ht) hindex htree hlink hupdates
    simp [reply, hs, ht, hcss]
  read reading := step_of_none rfl
  unlinked r place s properties := step_of_unlinked
  others r place s := sheet?_step_of_not_concerns

end Session

end Engine

end StyleTree
