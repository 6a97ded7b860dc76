/-!
# The start of a text
-/

namespace BeanSynthesis.Text

/-- What follows `start` in a list of characters that starts so. -/
def afterStart? (start s : List Char) : Option (List Char) :=
  match start, s with
  | [], s => some s
  | _ :: _, [] => none
  | a :: start, c :: s => if a = c then afterStart? start s else none

/-- What is left after a start is behind that start. -/
theorem eq_append_of_afterStart? {start s rest : List Char} (h : afterStart? start s = some rest) :
    s = start ++ rest := by
  induction start generalizing s with
  | nil => simpa [afterStart?] using h
  | cons a start ih =>
    cases s with
    | nil => simp [afterStart?] at h
    | cons c s =>
      simp only [afterStart?] at h
      split at h
      case isTrue heq =>
        subst heq
        rw [ih h, List.cons_append]
      case isFalse _ => cases h

/-- What is left after a start is shorter by the start. -/
theorem length_of_afterStart? {start s rest : List Char} (h : afterStart? start s = some rest) :
    rest.length + start.length = s.length := by
  rw [eq_append_of_afterStart? h, List.length_append]
  omega

/-- A start is taken off the text that it starts. -/
@[simp] theorem afterStart?_append (start rest : List Char) :
    afterStart? start (start ++ rest) = some rest := by
  induction start with
  | nil => rfl
  | cons a start ih => simpa [afterStart?] using ih

end BeanSynthesis.Text
