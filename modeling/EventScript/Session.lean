/-!
# Sessions

A `Session` counts what has been numbered so far: the loops and switches of the programs read, the
texts taken out of their commands, and the labels generated while lowering. Texts that are to be
joined later are compiled in one session, one after the other, so that no generated name is handed
out twice.
-/

namespace EventScript

/-- Names a loop or switch, so that a jump can refer to it. -/
structure ConstructId where
  index : Nat
deriving DecidableEq

/-- The written form of a construct's number. -/
def ConstructId.display (id : ConstructId) : String :=
  "#" ++ toString id.index

/-- The numbers handed out so far, by kind. -/
structure Session where
  constructs : Nat
  texts : Nat
  labels : Nat
deriving DecidableEq

namespace Session

/-- A session that has handed out nothing. -/
def fresh : Session :=
  ⟨0, 0, 0⟩

/-- The name of the text that carries number `n`. -/
def textName (n : Nat) : String :=
  "Text_" ++ toString n

/-- Hands out the number of a loop or switch; the first is 0. -/
def nextConstruct (s : Session) : ConstructId × Session :=
  (⟨s.constructs⟩, { s with constructs := s.constructs + 1 })

/-- Hands out the name of a text; the first carries the number 0. -/
def nextText (s : Session) : String × Session :=
  (textName s.texts, { s with texts := s.texts + 1 })

/-- Hands out the number of a label; the first is 1. -/
def nextLabel (s : Session) : Nat × Session :=
  (s.labels + 1, { s with labels := s.labels + 1 })

end Session
end EventScript
