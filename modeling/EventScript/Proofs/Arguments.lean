import EventScript.Arguments

/-!
# Arguments as words

`Arguments.words` writes arguments out in words, the input behind `--` since it may begin like an
option.

* `Given.word?_verbose`, `word?_product`, `word?_output`, `word?_mark` and `word?_input`: what one
  of these words does to the arguments read in front of it.
* `ofWords?_words`: read back, the words give the arguments.
-/

namespace EventScript

open CommandLine

namespace Arguments

/-- The words that ask for a file as the output. -/
def outputWords : Option String → List String
  | none => []
  | some file => ["--output=" ++ file]

/-- The arguments in words. -/
def words (a : Arguments) : List String :=
  (if a.verbose then ["--verbose"] else []) ++ ["--emit=" ++ a.product.word]
    ++ outputWords a.output ++ ["--", a.input]

namespace Given

variable {g : Given}

theorem word?_verbose (h : g.verbose = false) :
    g.word? "--verbose" .any = some ({ g with verbose := true }, .any) := by
  simp [word?, plain?, long?, withVerbose?, h]

theorem word?_product (h : g.product = none) (p : Product) :
    g.word? ("--emit=" ++ p.word) .any = some ({ g with product := some p }, .any) := by
  simp [word?, plain?, long?, withValue?, Setting.ofName?, h]

theorem word?_output (h : g.output = none) {file : String} (hfile : file ≠ "") :
    g.word? ("--output=" ++ file) .any = some ({ g with output := some file }, .any) := by
  simp [word?, plain?, long?, withValue?, Setting.ofName?, h, hfile]

/-- The mark behind which no options are left. -/
theorem word?_mark : g.word? "--" .any = some (g, .input) := by
  simp [word?, plain?]

theorem word?_input (h : g.input = none) {name : String} (hname : name ≠ "") :
    g.word? name .input = some ({ g with input := some name }, .input) := by
  simp [word?, withInput?, h, hname]

/-- Words are read one after another. -/
theorem words?_cons {expected later : Expected} {next : Given} {word : String}
    (h : g.word? word expected = some (next, later)) (ws : List String) :
    g.words? expected (word :: ws) = next.words? later ws := by
  cases expected <;> simp [words?, h]

/-- The words for the output and the input, read behind those for the rest. -/
theorem words?_outputWords {a : Arguments} (hinput : a.input ≠ "") (houtput : a.output ≠ some "")
    (hnone : g.input = none) (hfree : g.output = none) :
    g.words? .any (outputWords a.output ++ ["--", a.input])
      = some { g with input := some a.input, output := a.output } := by
  have behind (next : Given) (h : next.input = none) :
      next.words? .any ["--", a.input] = some { next with input := some a.input } := by
    rw [words?_cons word?_mark, words?_cons (word?_input h hinput), words?]
    exact nofun
  cases ha : a.output with
  | none => simpa [outputWords, hfree] using behind g hnone
  | some file =>
    have hfile : file ≠ "" := fun h => houtput (by rw [ha, h])
    rw [outputWords, List.singleton_append, words?_cons (word?_output hfree hfile)]
    exact behind _ hnone

end Given

/-- **Arguments written out in words are read back**, whatever the names of the files: a name that
begins like an option too, or that has an equals sign in it. Only an empty name cannot be given. -/
theorem ofWords?_words {a : Arguments} (hinput : a.input ≠ "") (houtput : a.output ≠ some "") :
    ofWords? a.words = some a := by
  obtain ⟨input, output, product, verbose⟩ := a
  have rest (v : Bool) : Given.words? ⟨none, none, none, v⟩ .any
      (["--emit=" ++ product.word] ++ outputWords output ++ ["--", input])
        = some ⟨some input, output, some product, v⟩ := by
    have emit := Given.word?_product (g := ⟨none, none, none, v⟩) rfl product
    rw [List.append_assoc, List.singleton_append, Given.words?_cons emit]
    exact Given.words?_outputWords hinput houtput rfl rfl
  have read : Given.nothing.words? .any (words ⟨input, output, product, verbose⟩)
      = some ⟨some input, output, some product, verbose⟩ := by
    cases verbose with
    | false => exact rest false
    | true => exact (Given.words?_cons (Given.word?_verbose rfl) _).trans (rest true)
  simp [ofWords?, read, Given.finish?]

-- Short options, and values in words of their own, say the same.
example : ofWords? ["-vo", "out", "--emit", "ast", "map"]
    = ofWords? (words ⟨"map", some "out", .outline, true⟩) := by
  rfl
end Arguments
end EventScript
