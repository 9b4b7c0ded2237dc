import EventScript.Assembly.Item
import EventScript.Proofs.Meaning.Game
import Mathlib.Data.List.Infix

/-!
# What assembly does

A machine goes through the items of a file one by one. A label is passed, a command is carried out,
a jump goes on at its label. At raw text, in a data block and behind the last item the machine has
nothing to go on with. A configuration holds the items ahead, so that the code behind a label is a
list of its own (`enter`).

Results: `Reaches.total`, by which two runs from one place go the same way as far as the shorter one
goes, and from it `Reaches.prefix_or_prefix`, `Reaches.prefix_of_stopped` and
`Reaches.eq_of_stopped`.
-/

namespace EventScript

universe u

namespace Item

/-- Whether the item is the label `name`. -/
def isLabel (name : String) : Item → Bool
  | .label other _ => other == name
  | _ => false

end Item

/-- Where a machine is: the items ahead and the state of the game. -/
inductive Config (σ : Type u) where
  | running (ahead : List Item) (state : σ)
  | stopped (state : σ)

namespace Machine

variable {σ : Type u}

/-- The items from a label on. -/
def enter (items : List Item) (name : String) : List Item :=
  items.dropWhile fun i => !i.isLabel name

/-- One step in the file `items`: what happens, and where it leads. -/
def next (g : Game σ) (items : List Item) : Config σ → Option (List Event × Config σ)
  | .running (.label _ _ :: ahead) s => some ([], .running ahead s)
  | .running (.command name args :: ahead) s =>
    some ([.performed name args],
      if Item.leavingCommand name then .stopped (g.perform name args s)
      else .running ahead (g.perform name args s))
  | .running (.goto target :: _) s => some ([], .running (enter items target) s)
  | .running (.branch test target :: ahead) s =>
    some ([.asked test.query], .running (if test.holds g s then enter items target else ahead) s)
  | .running (.raw .. :: _) _ | .running (.data .. :: _) _ | .running [] _ | .stopped _ => none

/-- The machine gets from one configuration to another, and `events` are what happens meanwhile. -/
inductive Reaches (g : Game σ) (items : List Item) : Config σ → List Event → Config σ → Prop
  | refl {c : Config σ} : Reaches g items c [] c
  | step {c c' c'' : Config σ} {events later : List Event}
      (hnext : next g items c = some (events, c')) (hlater : Reaches g items c' later c'') :
      Reaches g items c (events ++ later) c''

/-- The run from the label `name` on starts with `events`, or is no more than that. -/
def Performs (g : Game σ) (items : List Item) (name : String) (s : σ) (events : List Event) :
    Prop :=
  ∃ all c, Reaches g items (.running (enter items name) s) all c ∧ events <+: all

/-- The run from the label `name` on comes to its end, after `events` and in state `s'`. -/
def Finishes (g : Game σ) (items : List Item) (name : String) (s : σ) (events : List Event)
    (s' : σ) : Prop :=
  Reaches g items (.running (enter items name) s) events (.stopped s')

/-! ## Runs -/

namespace Reaches

variable {g : Game σ} {items : List Item} {c c₁ c₂ : Config σ} {events events₁ events₂ : List Event}

theorem trans (h₁ : Reaches g items c events₁ c₁) (h₂ : Reaches g items c₁ events₂ c₂) :
    Reaches g items c (events₁ ++ events₂) c₂ := by
  induction h₁ with
  | refl => exact h₂
  | step hnext _ ih =>
    rw [List.append_assoc]
    exact .step hnext (ih h₂)

theorem one (h : next g items c = some (events, c₁)) : Reaches g items c events c₁ := by
  have hstep : Reaches g items c (events ++ []) c₁ := .step h .refl
  rwa [List.append_nil] at hstep

theorem total (h₁ : Reaches g items c events₁ c₁) (h₂ : Reaches g items c events₂ c₂) :
    (∃ more, events₂ = events₁ ++ more ∧ Reaches g items c₁ more c₂) ∨
      ∃ more, events₁ = events₂ ++ more ∧ Reaches g items c₂ more c₁ := by
  -- the machine has one next step at most, so the two runs share their first one
  induction h₁ generalizing events₂ with
  | refl => exact .inl ⟨events₂, rfl, h₂⟩
  | @step c c' c'' events later hnext hlater ih =>
    cases h₂ with
    | refl => exact .inr ⟨events ++ later, rfl, .step hnext hlater⟩
    | step hnext' hlater' =>
      obtain ⟨rfl, rfl⟩ := Prod.mk.inj (Option.some.inj (hnext.symm.trans hnext'))
      rcases ih hlater' with ⟨more, rfl, hmore⟩ | ⟨more, rfl, hmore⟩
      · exact .inl ⟨more, (List.append_assoc _ _ _).symm, hmore⟩
      · exact .inr ⟨more, (List.append_assoc _ _ _).symm, hmore⟩

/-- **Runs from one place agree**: what happens in one is the start of what happens in another. -/
theorem prefix_or_prefix (h₁ : Reaches g items c events₁ c₁) (h₂ : Reaches g items c events₂ c₂) :
    events₁ <+: events₂ ∨ events₂ <+: events₁ := by
  rcases h₁.total h₂ with ⟨more, rfl, -⟩ | ⟨more, rfl, -⟩
  · exact .inl (List.prefix_append _ _)
  · exact .inr (List.prefix_append _ _)

theorem nil_of_stopped {s : σ} (h : Reaches g items (.stopped s) events c) :
    events = [] ∧ c = .stopped s := by
  cases h with
  | refl => exact ⟨rfl, rfl⟩
  | step hnext _ => exact nomatch hnext

theorem prefix_of_stopped {s : σ} (h₁ : Reaches g items c events₁ (.stopped s))
    (h₂ : Reaches g items c events₂ c₂) : events₂ <+: events₁ := by
  rcases h₁.total h₂ with ⟨more, rfl, hmore⟩ | ⟨more, rfl, -⟩
  · obtain ⟨rfl, -⟩ := hmore.nil_of_stopped
    rw [List.append_nil]
  · exact List.prefix_append _ _

theorem eq_of_stopped {s s' : σ} (h₁ : Reaches g items c events₁ (.stopped s))
    (h₂ : Reaches g items c events₂ (.stopped s')) : events₁ = events₂ ∧ s = s' := by
  rcases h₁.total h₂ with ⟨more, rfl, hmore⟩ | ⟨more, rfl, hmore⟩
  · obtain ⟨rfl, hstate⟩ := hmore.nil_of_stopped
    cases hstate
    exact ⟨(List.append_nil _).symm, rfl⟩
  · obtain ⟨rfl, hstate⟩ := hmore.nil_of_stopped
    cases hstate
    exact ⟨List.append_nil _, rfl⟩

end Reaches

/-! ## Labels -/

/-- **A label that is defined once is entered where it stands.** -/
theorem enter_of_suffix {items ahead : List Item} {name : String} {scope : Scope}
    (hnodup : (items.filterMap Item.definedName?).Nodup)
    (hsuffix : .label name scope :: ahead <:+ items) :
    enter items name = .label name scope :: ahead := by
  obtain ⟨before, rfl⟩ := hsuffix
  have hbefore : ∀ i ∈ before, i.isLabel name = false := by
    intro i hi
    cases i with
    | label other sc =>
      rw [List.filterMap_append, List.nodup_append] at hnodup
      have hne := hnodup.2.2 other (List.mem_filterMap.mpr ⟨_, hi, rfl⟩) name List.mem_cons_self
      simpa [Item.isLabel] using hne
    | _ => rfl
  unfold enter
  rw [List.dropWhile_append_of_pos fun i hi => by simp [hbefore i hi]]
  simp [Item.isLabel]

end Machine
end EventScript
