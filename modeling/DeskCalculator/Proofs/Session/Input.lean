import DeskCalculator.Proofs.Text.Span
import DeskCalculator.Session
import DeskCalculator.Text.Utf8Lines
import Mathlib.Data.List.TakeWhile

/-!
# Input as it arrives

A session with a person reads one line of bytes at a time and answers it before it reads the next.
What comes of it is what comes of the whole input: the bytes that are read at once are one line of
input, and the session goes on with the lines of the bytes behind them.
-/
namespace DeskCalculator

/-! ## Lines of bytes -/

section Lines

variable {line bytes : List UInt8}

theorem byteLines_of_ne_nil (some_input : bytes ≠ []) :
    byteLines bytes =
      if bytes.dropWhile (· != lineFeed) = [] then [bytes.takeWhile (· != lineFeed)]
      else dropReturn (bytes.takeWhile (· != lineFeed)) ::
        byteLines ((bytes.dropWhile (· != lineFeed)).drop 1) := by
  obtain ⟨byte, more, rfl⟩ := List.exists_cons_of_ne_nil some_input
  rw [byteLines]

theorem bne_lineFeed_of_not_mem (no_feed : lineFeed ∉ line) :
    ∀ byte ∈ line, (byte != lineFeed) = true :=
  fun _ member => bne_iff_ne.mpr (ne_of_mem_of_not_mem member no_feed)

theorem byteLines_append_lineFeed (no_feed : lineFeed ∉ line) (rest : List UInt8) :
    byteLines (line ++ lineFeed :: rest) = dropReturn line :: byteLines rest := by
  have all := bne_lineFeed_of_not_mem no_feed
  have stop : (lineFeed :: rest).takeWhile (· != lineFeed) = [] := rfl
  rw [byteLines_of_ne_nil (by simp), takeWhile_append_of_stop all stop,
    dropWhile_append_of_stop all stop, if_neg (List.cons_ne_nil _ _), List.drop_succ_cons,
    List.drop_zero]

theorem byteLines_of_not_mem (no_feed : lineFeed ∉ line) (some_input : line ≠ []) :
    byteLines line = [line] := by
  have all := bne_lineFeed_of_not_mem no_feed
  rw [byteLines_of_ne_nil some_input, List.dropWhile_eq_nil_iff.mpr all, if_pos rfl,
    List.takeWhile_eq_self_iff.mpr all]

end Lines

/-! ## Reading one line -/

/-- What is read at once of an input, and what is left of it: all up to the first line feed and with
it, or everything where there is none. -/
inductive ReadsLine : List UInt8 → List UInt8 → Prop where
  | ended {line : List UInt8} (no_feed : lineFeed ∉ line) (rest : List UInt8) :
    ReadsLine (line ++ [lineFeed]) rest
  | unended {line : List UInt8} (no_feed : lineFeed ∉ line) (some_input : line ≠ []) :
    ReadsLine line []

/-- Something is read of every input that is not empty. -/
theorem exists_readsLine {bytes : List UInt8} (some_input : bytes ≠ []) :
    ∃ piece rest, ReadsLine piece rest ∧ piece ++ rest = bytes := by
  by_cases feed : lineFeed ∈ bytes
  · obtain ⟨line, rest, rfl, no_feed⟩ := List.eq_append_cons_of_mem feed
    exact ⟨line ++ [lineFeed], rest, .ended no_feed rest, by simp⟩
  · exact ⟨bytes, [], .unended feed some_input, List.append_nil bytes⟩

/-- What is read at once is one line of the input, and the others are those of what is left. -/
theorem ReadsLine.textLines_append {piece rest : List UInt8} (reads : ReadsLine piece rest) :
    ∃ text, textLines piece = [text] ∧ textLines (piece ++ rest) = text :: textLines rest := by
  cases reads with
  | @ended line no_feed rest =>
    refine ⟨decodeUtf8? (dropReturn line), ?_, ?_⟩
    · rw [textLines, byteLines_append_lineFeed no_feed, byteLines]
      rfl
    · rw [List.append_assoc, List.singleton_append, textLines, byteLines_append_lineFeed no_feed]
      rfl
  | unended no_feed some_input =>
    refine ⟨decodeUtf8? piece, ?_, ?_⟩
    · rw [textLines, byteLines_of_not_mem no_feed some_input]
      rfl
    · rw [List.append_nil, textLines, byteLines_of_not_mem no_feed some_input, textLines, byteLines]
      rfl

theorem ReadsLine.ne_nil {piece rest : List UInt8} (reads : ReadsLine piece rest) : piece ≠ [] := by
  cases reads with
  | ended => simp
  | unended _ some_input => exact some_input

/-! ## A session that reads as it goes on -/

namespace Session

variable {clipboard : Clipboard} {settings : Settings} {interactive : Bool}

/-- What comes of a session that reads a line of the bytes that are left, makes its step on it, and
goes on with those behind it. -/
inductive Converses (clipboard : Clipboard) (settings : Settings) (interactive : Bool) :
    Line → List UInt8 → Transcript → Prop where
  | ended (line : Line) : Converses clipboard settings interactive line [] ⟨[], line, [], true⟩
  | stops {line : Line} {piece rest : List UInt8} {text : Option (List Char)}
    (reads : ReadsLine piece rest) (typed : textLines piece = [text])
    (stop : (step clipboard settings interactive line text).goesOn = false) :
    Converses clipboard settings interactive line (piece ++ rest)
      (step clipboard settings interactive line text).answered
  | continues {line : Line} {piece rest : List UInt8} {text : Option (List Char)}
    {later : Transcript} (reads : ReadsLine piece rest) (typed : textLines piece = [text])
    (goes_on : (step clipboard settings interactive line text).goesOn = true)
    (behind : Converses clipboard settings interactive
      (step clipboard settings interactive line text).answered.line rest later) :
    Converses clipboard settings interactive line (piece ++ rest)
      ((step clipboard settings interactive line text).answered.followedBy later)

/-- A session over an input takes its first step on the line that is read first. -/
theorem answers_of_reads {line : Line} {piece rest : List UInt8} {text : Option (List Char)}
    (reads : ReadsLine piece rest) (typed : textLines piece = [text]) :
    answers clipboard settings interactive line (textLines (piece ++ rest)) =
      answers clipboard settings interactive line (text :: textLines rest) := by
  obtain ⟨first, alone, all⟩ := reads.textLines_append
  rw [typed, List.singleton_inj] at alone
  rw [all, alone]

theorem Converses.eq_answers {line : Line} {bytes : List UInt8} {made : Transcript}
    (converses : Converses clipboard settings interactive line bytes made) :
    made = answers clipboard settings interactive line (textLines bytes) := by
  induction converses with
  | ended line => simp [textLines, byteLines, answers]
  | stops reads typed stop =>
    rw [answers_of_reads reads typed, answers]
    simp [stop]
  | continues reads typed goes_on _ ih =>
    rw [answers_of_reads reads typed, answers, ih]
    simp [goes_on]

theorem converses_answers (line : Line) (bytes : List UInt8) :
    Converses clipboard settings interactive line bytes
      (answers clipboard settings interactive line (textLines bytes)) := by
  induction size : bytes.length using Nat.strong_induction_on generalizing line bytes with
  | _ n ih =>
    by_cases some_input : bytes = []
    · subst some_input
      simpa [textLines, byteLines, answers] using Converses.ended line
    · obtain ⟨piece, rest, reads, rfl⟩ := exists_readsLine some_input
      obtain ⟨text, typed, _⟩ := reads.textLines_append
      rw [answers_of_reads reads typed, answers]
      by_cases goes_on : (step clipboard settings interactive line text).goesOn = true
      · have shorter : rest.length < n := by
          have read_pos := List.length_pos_iff.mpr reads.ne_nil
          rw [List.length_append] at size
          omega
        rw [if_pos goes_on]
        exact .continues reads typed goes_on (ih _ shorter _ rest rfl)
      · rw [if_neg goes_on]
        exact .stops reads typed (Bool.eq_false_iff.mpr goes_on)

/-- A session that reads one line of bytes at a time comes to what the session over the whole input
comes to, and to nothing else. -/
theorem converses_iff {line : Line} {bytes : List UInt8} {made : Transcript} :
    Converses clipboard settings interactive line bytes made ↔
      made = answers clipboard settings interactive line (textLines bytes) := by
  constructor
  · exact Converses.eq_answers
  · rintro rfl
    exact converses_answers line bytes

end Session

end DeskCalculator
