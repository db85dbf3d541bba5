import DeskCalculator.CommandLine
import DeskCalculator.Proofs.Token.Written

/-!
# Blanks between tokens

The tokens read from a text may be written out with any blanks between them, and reading them gives
the same tokens. A blank ends every literal and is skipped itself, so each token is read from its
own text alone, and all that counts besides is whether an operand may come where it stands, which
the token before it decides. In the same way arguments with a space between each two are read one
after the other.
-/
namespace DeskCalculator

/-- The tokens are written in order, with blanks between each two and perhaps at both ends. -/
inductive Spaced : List Token → List Char → Prop where
  | nil : Spaced [] []
  | blank {c : Char} {tokens : List Token} {text : List Char} (blank : isBlank c = true)
      (behind : Spaced tokens text) : Spaced tokens (c :: text)
  | token {token : Token} {tokens : List Token} {text : List Char}
      (apart : ∀ c ∈ text.head?, isBlank c = true) (behind : Spaced tokens text) :
      Spaced (token :: tokens) (token.text ++ text)

theorem Spaced.token_blank {token : Token} {tokens : List Token} {c : Char} {text : List Char}
    (blank : isBlank c = true) (behind : Spaced tokens text) :
    Spaced (token :: tokens) (token.text ++ c :: text) :=
  .token (by simpa using blank) (.blank blank behind)

/-! ## Blanks -/

theorem scanFrom_blank {c : Char} (blank : isBlank c = true) (operandExpected : Bool)
    (rest : List Char) : scanFrom operandExpected (c :: rest) = scanFrom operandExpected rest :=
  scanFrom_skipped (not_isRunChar_of_isBlank blank).1 (ofChar?_eq_none_of_isBlank blank)
    operandExpected rest

/-- A blank ends every literal, and so does the end of the text. -/
theorem cut_of_blank {rest : List Char} (apart : ∀ c ∈ rest.head?, isBlank c = true)
    (front : List Char) : Cut front rest := by
  cases rest with
  | nil => exact Apart.cut (by simp [Apart]) front
  | cons c rest =>
    have blank := apart c rfl
    obtain ⟨run, mark⟩ := not_isRunChar_of_isBlank blank
    refine cut_cons run mark ?_
    rintro (rfl | rfl) <;> exact absurd blank (by decide)

/-! ## Tokens written out -/

theorem Spaced.scanFrom {tokens : List Token} {text : List Char} (spaced : Spaced tokens text)
    {operandExpected : Bool} (rescans : Rescans operandExpected tokens) :
    scanFrom operandExpected text = .ok tokens := by
  induction spaced generalizing operandExpected with
  | nil => rw [DeskCalculator.scanFrom]
  | blank blank _ ih =>
    rw [scanFrom_blank blank]
    exact ih rescans
  | @token token _ _ apart _ ih =>
    obtain ⟨alone, behind⟩ := rescans
    rw [scanFrom_append operandExpected (cut_of_blank apart token.text), alone, scanBehind,
      Except.bind, expectsAfter, expectsAfter, ih behind]
    rfl

/-! ## Arguments -/

/-- The tokens of texts that are read one after the other, each where the one before it leaves
off. -/
def scanInTurn (operandExpected : Bool) : List (List Char) → Except Fault (List Token)
  | [] => .ok []
  | part :: rest =>
    (scanFrom operandExpected part).bind fun tokens =>
      (scanInTurn (expectsAfter operandExpected tokens) rest).map (tokens ++ ·)

/-- With a space between each two, arguments are read one after the other. -/
theorem scanFrom_joined (operandExpected : Bool) (parts : List (List Char)) :
    scanFrom operandExpected (CommandLine.joined parts) = scanInTurn operandExpected parts := by
  induction parts generalizing operandExpected with
  | nil => rw [scanInTurn, CommandLine.joined, List.intersperse_nil, List.flatten_nil, scanFrom]
  | cons part rest ih =>
    have inner (tokens : List Token) := ih (expectsAfter operandExpected tokens)
    cases rest with
    | nil =>
      have alone : CommandLine.joined [part] = part := by simp [CommandLine.joined]
      rw [alone, scanInTurn]
      cases scanFrom operandExpected part <;> simp [scanInTurn, Except.bind, Except.map]
    | cons next rest =>
      have split : CommandLine.joined (part :: next :: rest) =
          part ++ ' ' :: CommandLine.joined (next :: rest) := by
        simp [CommandLine.joined]
      have space : isBlank ' ' = true := by decide
      have cut : Cut part (' ' :: CommandLine.joined (next :: rest)) :=
        cut_of_blank (by simpa using space) part
      rw [split, scanFrom_append operandExpected cut, scanBehind, scanInTurn]
      simp only [scanFrom_blank space, inner]

/-- Texts with the same tokens, of which there are some, have the same value. -/
theorem evaluate_congr {text other : List Char} {tokens : List Token}
    (scanned : scan text = .ok tokens) (same : scan other = .ok tokens) (some_token : tokens ≠ []) :
    evaluate other = evaluate text := by
  rw [evaluate_eq (ne_nil_of_scan same some_token), evaluate_eq (ne_nil_of_scan scanned some_token),
    same, scanned]

/-- The tokens of a text are read again from any text that has them in order with blanks between
each two, and from arguments that have them in turn. So neither the blanks between tokens nor the
way in which arguments are cut between them changes the value. -/
theorem scan_of_spaced {text : List Char} {tokens : List Token}
    (scanned : scan text = .ok tokens) :
    (∀ spaced, Spaced tokens spaced → scan spaced = .ok tokens ∧
        (tokens ≠ [] → evaluate spaced = evaluate text)) ∧
      ∀ parts, scanInTurn true parts = .ok tokens →
        scan (CommandLine.joined parts) = .ok tokens ∧
          (tokens ≠ [] → evaluate (CommandLine.joined parts) = evaluate text) := by
  have rescans := (scans_of_scanFrom scanned).rescans
  refine ⟨fun spaced written => ?_, fun parts in_turn => ?_⟩
  · have same : scan spaced = .ok tokens := written.scanFrom rescans
    exact ⟨same, evaluate_congr scanned same⟩
  · have same : scan (CommandLine.joined parts) = .ok tokens :=
      (scanFrom_joined true parts).trans in_turn
    exact ⟨same, evaluate_congr scanned same⟩

/-- The sign of a factor stays with it, a minus between numbers stands alone. -/
theorem scan_of_spaced_product :
    let text := "2*-3-.5".toList
    let tokens : List Token := [.literal "2".toList, .operator (.binary .mul),
      .literal "-3".toList, .operator (.binary .sub), .literal ".5".toList]
    let spaced := [' ', '2', ' ', '*', '\t', '-', '3', ' ', ' ', '-', ' ', '.', '5']
    let parts := ["2*".toList, "-3-".toList, ".5".toList]
    scan text = .ok tokens ∧ Spaced tokens spaced ∧ scanInTurn true parts = .ok tokens ∧
      scan spaced = .ok tokens ∧ evaluate spaced = evaluate text ∧
      scan (CommandLine.joined parts) = .ok tokens ∧
      evaluate (CommandLine.joined parts) = evaluate text := by
  intro text tokens spaced parts
  have scanned : scan text = .ok tokens := by decide +kernel
  have written : Spaced tokens spaced := by
    refine .blank rfl (.token_blank rfl (.token_blank rfl ?_))
    refine .token_blank rfl (.blank rfl (.token_blank rfl ?_))
    exact .token (by simp) .nil
  have in_turn : scanInTurn true parts = .ok tokens := by decide +kernel
  obtain ⟨of_spaced, of_parts⟩ := scan_of_spaced scanned
  obtain ⟨again, value⟩ := of_spaced spaced written
  obtain ⟨joined, joined_value⟩ := of_parts parts in_turn
  exact ⟨scanned, written, in_turn, again, value (by decide), joined, joined_value (by decide)⟩

end DeskCalculator
