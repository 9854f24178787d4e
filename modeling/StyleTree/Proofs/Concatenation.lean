import StyleTree.Proofs.Grammar

/-!
# Descriptions one after the other

The classes of a description only know of each other by the names which they take. So a description
whose classes are those of two others, one after the other, is compiled to what the two are compiled
to, one after the other, if no name is taken by both; and it is refused for the first fault of the
first of them, if that has any.

## Main statements

* `Description.classesFaults_append`: the faults of some classes, and then those of the others
  beside the names which the first ones take.
* `Compiled.outcome_append`: the compilation of two descriptions, one after the other.
-/

namespace StyleTree

namespace Description

/-! ## Parts of descriptions -/

theorem named_append (entries others : Value.Entries) :
    named (entries ++ others) = named entries ++ named others :=
  List.filterMap_append

theorem allClaims_append (classes others : List (String × Value)) :
    allClaims (classes ++ others) = allClaims classes ++ allClaims others :=
  List.flatMap_append

theorem translationOf_append (classes others : List (String × Value)) :
    translationOf (classes ++ others) =
      { ruleTree := (translationOf classes).ruleTree ++ (translationOf others).ruleTree
        classes := (translationOf classes).classes ++ (translationOf others).classes
        baseClasses :=
          (translationOf classes).baseClasses ++ (translationOf others).baseClasses } := by
  simp [translationOf]

/-- The faults of some classes, and then those of the others beside all names which were claimed
before. -/
theorem classesFaults_append (claimed : List String) (entries others : Value.Entries) :
    classesFaults claimed (entries ++ others) =
      classesFaults claimed entries ++ classesFaults
        ((entries.flatMap fun e => entryClaims e.1 e.2).reverse ++ claimed) others := by
  induction entries generalizing claimed with
  | nil => rfl
  | cons entry rest ih =>
    obtain ⟨key, block⟩ := entry
    rw [List.cons_append, classesFaults, classesFaults, ih]
    simp only [List.flatMap_cons, List.reverse_append, List.append_assoc]

section

variable {d₁ d₂ d : Value} {e₁ e₂ : Value.Entries} (h₁ : d₁.entries? = some e₁)
  (h₂ : d₂.entries? = some e₂) (h : d.entries? = some (e₁ ++ e₂))

include h₁ h₂ h

theorem classes_append : classes d = classes d₁ ++ classes d₂ := by
  simp only [classes, h₁, h₂, h, Option.getD_some, named_append]

/-- A description is well formed if both parts of it are and take different names. -/
theorem isWellFormed_append_iff (hne₁ : e₁ ≠ []) (hne₂ : e₂ ≠ []) :
    IsWellFormed d ↔ IsWellFormed d₁ ∧ IsWellFormed d₂ ∧
      (allClaims (classes d₁)).Disjoint (allClaims (classes d₂)) := by
  have hclaims : allClaims (classes d) = allClaims (classes d₁) ++ allClaims (classes d₂) := by
    rw [classes_append h₁ h₂ h, allClaims_append]
  constructor
  · rintro ⟨hd, -, hnames, hblocks, hdistinct⟩
    obtain rfl := Option.some.inj (h.symm.trans hd)
    rw [hclaims, List.nodup_append'] at hdistinct
    obtain ⟨hdistinct₁, hdistinct₂, hdisjoint⟩ := hdistinct
    rw [List.forall_mem_append] at hnames hblocks
    exact ⟨.intro h₁ hne₁ hnames.1 hblocks.1 hdistinct₁,
      .intro h₂ hne₂ hnames.2 hblocks.2 hdistinct₂, hdisjoint⟩
  · rintro ⟨⟨hd₁, -, hnames₁, hblocks₁, hdistinct₁⟩, ⟨hd₂, -, hnames₂, hblocks₂, hdistinct₂⟩,
      hdisjoint⟩
    obtain rfl := Option.some.inj (h₁.symm.trans hd₁)
    obtain rfl := Option.some.inj (h₂.symm.trans hd₂)
    refine .intro h (by simp [hne₁]) (List.forall_mem_append.2 ⟨hnames₁, hnames₂⟩)
      (List.forall_mem_append.2 ⟨hblocks₁, hblocks₂⟩) ?_
    rw [hclaims, List.nodup_append']
    exact ⟨hdistinct₁, hdistinct₂, hdisjoint⟩

end

/-- The first fault of a description is that of each longer one which begins with its classes. -/
theorem head?_faults_append {d₁ d : Value} {e₁ e₂ : Value.Entries} (h₁ : d₁.entries? = some e₁)
    (h : d.entries? = some (e₁ ++ e₂)) (hne₁ : e₁ ≠ []) {f : Fault}
    (hf : (faults d₁).head? = some f) : (faults d).head? = some f := by
  obtain ⟨entry, rest, rfl⟩ := List.exists_cons_of_ne_nil hne₁
  have hfaults : faults d = faults d₁ ++ classesFaults
      ((entry :: rest).flatMap fun e => entryClaims e.1 e.2).reverse e₂ := by
    have happend := classesFaults_append [] (entry :: rest) e₂
    rw [List.append_nil] at happend
    simp only [faults, h, h₁, List.cons_append]
    exact happend
  simp [hfaults, List.head?_append, hf]

end Description

namespace Compiled

open Description

/-- A description whose classes are those of two others, one after the other, is compiled if and
only if the two are and no class name is taken by both of them. It is then compiled to what they are
compiled to, one after the other. If the first of them is refused, it is refused for the same. -/
theorem outcome_append {d₁ d₂ d : Value} {e₁ e₂ : Value.Entries} (h₁ : d₁.entries? = some e₁)
    (h₂ : d₂.entries? = some e₂) (h : d.entries? = some (e₁ ++ e₂)) (hne₁ : e₁ ≠ [])
    (hne₂ : e₂ ≠ []) :
    ((∃ c, outcome d = .ok c) ↔ (∃ c₁, outcome d₁ = .ok c₁) ∧ (∃ c₂, outcome d₂ = .ok c₂) ∧
      (allClaims (Description.classes d₁)).Disjoint (allClaims (Description.classes d₂))) ∧
    (∀ c, outcome d = .ok c → ∃ c₁ c₂, outcome d₁ = .ok c₁ ∧ outcome d₂ = .ok c₂ ∧
      c.ruleTree = c₁.ruleTree ++ c₂.ruleTree ∧ c.classes = c₁.classes ++ c₂.classes ∧
      c.baseClasses = c₁.baseClasses ++ c₂.baseClasses) ∧
    ∀ r, outcome d₁ = .error r → outcome d = .error r := by
  have hwell := isWellFormed_append_iff h₁ h₂ h hne₁ hne₂
  refine ⟨?_, ?_, ?_⟩
  · rw [exists_outcome_iff, exists_outcome_iff, exists_outcome_iff, hwell]
  · intro c hc
    obtain ⟨hwell₁, hwell₂, -⟩ := hwell.1 (exists_outcome_iff.1 ⟨c, hc⟩)
    obtain ⟨c₁, hc₁⟩ := exists_outcome_iff.2 hwell₁
    obtain ⟨c₂, hc₂⟩ := exists_outcome_iff.2 hwell₂
    have htree : c = translationOf (Description.classes d₁ ++ Description.classes d₂) := by
      rw [eq_translation (outcome_eq_ok_iff.1 hc), translation, classes_append h₁ h₂ h]
    have htree₁ : c₁ = translationOf (Description.classes d₁) :=
      eq_translation (outcome_eq_ok_iff.1 hc₁)
    have htree₂ : c₂ = translationOf (Description.classes d₂) :=
      eq_translation (outcome_eq_ok_iff.1 hc₂)
    rw [translationOf_append, ← htree₁, ← htree₂] at htree
    exact ⟨c₁, c₂, hc₁, hc₂, by rw [htree], by rw [htree], by rw [htree]⟩
  · intro r hr
    obtain ⟨f, hf, hrefusal⟩ := outcome_eq_error_iff.1 hr
    have hhead := (ofDescription_stopsAtFirst d₁).error_iff.1 hf
    have hfault := (ofDescription_stopsAtFirst d).error_iff.2
      (head?_faults_append h₁ h hne₁ hhead)
    exact outcome_eq_error_iff.2 ⟨f, hfault, hrefusal⟩

/-- A class which only declares a color. -/
def colored (className : String) : Value × Value :=
  (.str className, .map [(.str "color", .str "red")])

/-- A button has no rule for its variant `plain`, but the name of the variant is taken. -/
theorem outcome_append_button :
    (∃ c, outcome button = .ok c) ∧ (∃ c, outcome (.map [colored "button-plain"]) = .ok c) ∧
      (¬ ∃ c, outcome (.map ((button.entries?.getD []) ++ [colored "button-plain"])) = .ok c) ∧
      ∃ c, outcome (.map ((button.entries?.getD []) ++ [colored "button-plane"])) = .ok c := by
  have hplain := @outcome_append button (.map [colored "button-plain"]) _ _ _ rfl rfl
    (Value.entries?_map _) (by simp) (by simp)
  have hplane := @outcome_append button (.map [colored "button-plane"]) _ _ _ rfl rfl
    (Value.entries?_map _) (by simp) (by simp)
  refine ⟨⟨_, rfl⟩, ⟨_, rfl⟩, fun hok => ?_, hplane.1.2 ⟨⟨_, rfl⟩, ⟨_, rfl⟩, ?_⟩⟩
  · have htaken : "button-plain" ∈ allClaims (Description.classes button) := by decide
    have hown : "button-plain" ∈
        allClaims (Description.classes (.map [colored "button-plain"])) := by decide
    exact (hplain.1.1 hok).2.2 htaken hown
  · exact List.disjoint_iff_ne.2 (by decide)

end Compiled

end StyleTree
