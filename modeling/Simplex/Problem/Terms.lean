import Simplex.Problem.Basic
import Simplex.Decimal.Numeral
import Simplex.Text.Cut
import Simplex.Fault

/-!
# Reading terms

A term is `[sign][magnitude]letter[digits]`: the sign is plus and the magnitude is one if it is not
written, and the letter with its digits names the variable. `readTerms` reads a text that is a
sequence of terms, each as long as it can be, and otherwise says where it stopped.
-/

namespace Simplex

/-- Reads the sign and the magnitude in front of a variable, as far as they are written. -/
def readCoefficient [Scalar α] (text : List Char) : α × List Char :=
  let (negative, unsigned) := Decimal.readSign text
  let sign : α := if negative then -1 else 1
  match Decimal.Numeral.readMagnitude unsigned with
  | some (numeral, rest) => (sign * numeral.toScalar, rest)
  | none => (sign * 1, unsigned)

/-- Reads one term from the front. A failure tells the text in front of which the reader stopped,
behind the sign and the magnitude. -/
def readTerm [Scalar α] (text : List Char) : Except (List Char) (Term α × List Char) :=
  match readCoefficient text with
  | (_, []) => .error []
  | (coefficient, letter :: tail) =>
    if letter.isAlpha then
      .ok ({ coefficient, name := String.ofList (letter :: tail.takeWhile Char.isDigit) },
        tail.dropWhile Char.isDigit)
    else .error (letter :: tail)

/-! ### A term takes at least its letter -/

theorem length_dropWhile_le (p : Char → Bool) (text : List Char) :
    (text.dropWhile p).length ≤ text.length :=
  (List.dropWhile_suffix p).length_le

theorem length_readSign_le (text : List Char) :
    (Decimal.readSign text).2.length ≤ text.length := by
  unfold Decimal.readSign
  split <;> simp

theorem length_readMagnitude_le {text rest : List Char} {n : Decimal.Numeral}
    (h : Decimal.Numeral.readMagnitude text = some (n, rest)) : rest.length ≤ text.length := by
  have hd := length_dropWhile_le Char.isDigit text
  unfold Decimal.Numeral.readMagnitude at h
  dsimp only at h
  split at h
  · rename_i d tail ht
    rw [ht] at hd
    simp only [List.length_cons] at hd
    split at h
    · obtain ⟨-, rfl⟩ := Prod.mk.inj (Option.some.inj h)
      have htail := length_dropWhile_le Char.isDigit tail
      omega
    · split at h
      · cases h
      · obtain ⟨-, rfl⟩ := Prod.mk.inj (Option.some.inj h)
        simp only [ht, List.length_cons]
        omega
  · split at h
    · cases h
    · obtain ⟨-, rfl⟩ := Prod.mk.inj (Option.some.inj h)
      exact hd

theorem length_readCoefficient_le [Scalar α] (text : List Char) :
    (readCoefficient (α := α) text).2.length ≤ text.length := by
  have hs := length_readSign_le text
  unfold readCoefficient
  generalize Decimal.readSign text = signed at hs ⊢
  obtain ⟨negative, unsigned⟩ := signed
  dsimp only at hs ⊢
  split
  · rename_i hr
    exact Nat.le_trans (length_readMagnitude_le hr) hs
  · exact hs

theorem length_lt_of_readTerm [Scalar α] {text rest : List Char} {t : Term α}
    (h : readTerm text = .ok (t, rest)) : rest.length < text.length := by
  have hc := length_readCoefficient_le (α := α) text
  unfold readTerm at h
  split at h
  · cases h
  · rename_i coefficient letter tail hr
    rw [hr, List.length_cons] at hc
    split at h
    · obtain ⟨-, rfl⟩ := Prod.mk.inj (Except.ok.inj h)
      have htail := length_dropWhile_le Char.isDigit tail
      omega
    · cases h

/-- The terms that begin a text, as many as there are, and the text behind them. -/
def readMany [Scalar α] (text : List Char) : List (Term α) × List Char :=
  match h : readTerm text with
  | .error _ => ([], text)
  | .ok (t, rest) =>
    have := length_lt_of_readTerm h
    let (ts, stop) := readMany rest
    (t :: ts, stop)
termination_by text.length

/-- The flaw of a text of which the reader left `stop` unread. -/
def flawAt (text stop : List Char) : SyntaxFault :=
  let offset := Text.byteLength text - Text.byteLength stop
  if offset = 0 then .noTermIn (String.ofList text)
  else .unexpected (String.ofList stop) offset (String.ofList text)

def readTerms [Scalar α] (text : List Char) : Except SyntaxFault (List (Term α)) :=
  if text = [] then .error .noTerms
  else match readTerm (α := α) text with
    | .error stop => .error (flawAt text stop)
    | .ok _ => match readMany text with
      | (terms, []) => .ok terms
      | (_, stop) => .error (flawAt text stop)

end Simplex
