import Mathlib.Data.List.TakeWhile

/-!
# Runs of characters

A run is the longest stretch of characters of one class at the front of a text. A text whose
first character is outside the class ends every run before it, so a run can be read off a text
that is given as the run and what follows it.
-/

namespace Lisplet.Text

variable {test : Char → Bool} {run text : List Char}

/-- A text into which no run of a class goes on: it is empty or starts outside the class. -/
def StopsRun (test : Char → Bool) (text : List Char) : Prop := ∀ c ∈ text.head?, test c = false

/-- The end of a text stops every run. -/
@[simp] theorem stopsRun_nil : StopsRun test [] := by simp [StopsRun]

/-- A first character outside the class is all that stopping a run takes. -/
@[simp] theorem stopsRun_cons {c : Char} : StopsRun test (c :: text) ↔ test c = false := by
  simp [StopsRun]

/-- What follows the longest run stops it. -/
theorem stopsRun_dropWhile (test : Char → Bool) (text : List Char) :
    StopsRun test (text.dropWhile test) := by
  have h := List.head?_dropWhile_not test text
  intro c hc
  rw [Option.mem_def] at hc
  simpa [hc] using h

/-- Dropping as many characters as the longest run has leaves what follows it. -/
theorem drop_length_takeWhile (test : Char → Bool) (text : List Char) :
    text.drop (text.takeWhile test).length = text.dropWhile test := by
  have h : (text.takeWhile test ++ text.dropWhile test).drop (text.takeWhile test).length =
      text.dropWhile test := List.drop_left
  rwa [List.takeWhile_append_dropWhile] at h

/-- A text that stops a run starts with none. -/
theorem takeWhile_of_stopsRun (h : StopsRun test text) : text.takeWhile test = [] := by
  cases text with
  | nil => rfl
  | cons c rest => simp [stopsRun_cons.mp h]

/-- The longest run at the front of a run and a text that stops it is that run. -/
theorem takeWhile_append_of_stopsRun (hrun : ∀ c ∈ run, test c = true) (h : StopsRun test text) :
    (run ++ text).takeWhile test = run := by
  rw [List.takeWhile_append_of_pos hrun, takeWhile_of_stopsRun h, List.append_nil]

/-- Behind the longest run stands the text that stops it. -/
theorem dropWhile_append_of_stopsRun (hrun : ∀ c ∈ run, test c = true) (h : StopsRun test text) :
    (run ++ text).dropWhile test = text := by
  rw [List.dropWhile_append_of_pos hrun]
  cases text with
  | nil => rfl
  | cons c rest => simp [stopsRun_cons.mp h]

end Lisplet.Text
