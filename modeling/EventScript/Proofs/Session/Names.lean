import EventScript.Lowering.Context

/-!
# Generated names

The name of a generated label is that of its script, an underscore and a number, and the name of a
pooled text is made the same way. Digits are no underscores, so the number is what stands behind
the last underscore, whatever the script is called.

Results:
* `labelName_inj`: a label tells its script and its number;
* `textName_eq_labelName`: the names of pooled texts are those that labels of a script called
  `Text` have.
-/

namespace EventScript

open Lowering Session

/-- A number is written in digits. -/
theorem notMem_toString {c : Char} (hc : c.isDigit = false) (n : Nat) : c ∉ (toString n).toList := by
  intro h
  rw [Nat.toString_eq_repr, Nat.toList_repr] at h
  rw [Nat.isDigit_of_mem_toDigits (by decide) (by decide) h] at hc
  exact Bool.noConfusion hc

theorem underscore_notMem_toString (n : Nat) : '_' ∉ (toString n).toList :=
  notMem_toString (by decide) n

theorem toList_toString_inj {n n' : Nat} (h : (toString n).toList = (toString n').toList) :
    n = n' := by
  simp only [Nat.toString_eq_repr, Nat.toList_repr] at h
  have hread := congrArg (fun digits => Nat.ofDigitChars 10 digits 0) h
  simpa using hread

/-- What stands behind the last `x` can be told from what stands in front of it. -/
theorem append_cons_inj_of_notMem_right {α : Type} {x : α} {a b c d : List α} (hb : x ∉ b)
    (hd : x ∉ d) (h : a ++ x :: b = c ++ x :: d) : a = c ∧ b = d := by
  rcases List.append_eq_append_iff.mp h with ⟨more, rfl, hmore⟩ | ⟨more, rfl, hmore⟩
  · cases more with
    | nil => exact ⟨(List.append_nil a).symm, (List.cons.inj hmore).2⟩
    | cons y more =>
      refine absurd ?_ hb
      rw [(List.cons.inj hmore).2]
      simp
  · cases more with
    | nil => exact ⟨List.append_nil c, (List.cons.inj hmore).2.symm⟩
    | cons y more =>
      refine absurd ?_ hd
      rw [(List.cons.inj hmore).2]
      simp

/-- **A label tells its script and its number.** -/
theorem labelName_inj {script script' : String} {n n' : Nat} :
    labelName script n = labelName script' n' ↔ script = script' ∧ n = n' := by
  refine ⟨fun h => ?_, fun ⟨hs, hn⟩ => by rw [hs, hn]⟩
  have hlist : script.toList ++ '_' :: (toString n).toList =
      script'.toList ++ '_' :: (toString n').toList := by
    simpa [labelName] using congrArg String.toList h
  obtain ⟨hs, hn⟩ := append_cons_inj_of_notMem_right (underscore_notMem_toString n)
    (underscore_notMem_toString n') hlist
  exact ⟨String.toList_inj.mp hs, toList_toString_inj hn⟩

theorem textName_eq_labelName (n : Nat) : textName n = labelName "Text" n := rfl

theorem textName_inj {n n' : Nat} : textName n = textName n' ↔ n = n' := by
  simp [textName_eq_labelName, labelName_inj]

end EventScript
