import DeskCalculator.Proofs.Trimming
import Mathlib.Data.List.DropRight

/-!
# Dangling tokens

What dangles in a text is set aside character by character, before anything is read. Cutting it off
does not change how the rest is read: unless the text holds characters that belong to no token, the
tokens of the trimmed text are those of the whole, without the operators that lack a left operand at
the start and without what waits for an operand at the end. So the preview can be told from the
tokens alone.
-/
namespace DeskCalculator

namespace Token

/-- Whether the token is an operator that needs a left operand. A minus does not, as it may be a
sign. -/
def lacksLeft : Token → Bool
  | .operator (.binary op) => op ≠ .sub
  | _ => false

end Token

/-- Tokens without those that dangle, first at the start and then at the end. -/
def trimTokens (tokens : List Token) : List Token :=
  (tokens.dropWhile Token.lacksLeft).rdropWhile Token.expectsOperand

/-! ## What is set aside -/

theorem isBlank_of_danglesAtEnd {c : Char} (dangles : danglesAtEnd c = true)
    (none : Token.ofChar? c = none) : isBlank c = true := by
  simp only [danglesAtEnd, danglesAtStart, Bool.or_eq_true, beq_iff_eq] at dangles
  rcases dangles with ((((((blank | rfl) | rfl) | rfl) | rfl) | rfl) | rfl) | rfl
  · exact blank
  all_goals cases none

theorem lacksLeft_of_danglesAtStart {c : Char} (dangles : danglesAtStart c = true) {token : Token}
    (single : Token.ofChar? c = some token) : token.lacksLeft = true := by
  simp only [danglesAtStart, Bool.or_eq_true, beq_iff_eq] at dangles
  rcases dangles with (((blank | rfl) | rfl) | rfl) | rfl
  · rw [ofChar?_eq_none_of_isBlank blank] at single
    cases single
  all_goals
    cases single
    rfl

theorem lacksLeft_of_mem_singles_leading {text : List Char} {token : Token}
    (member : token ∈ singles (leading text)) : token.lacksLeft = true := by
  obtain ⟨c, dangling, single⟩ := List.mem_filterMap.mp member
  exact lacksLeft_of_danglesAtStart (danglesAtStart_of_mem_leading dangling) single

theorem expectsOperand_of_mem_singles_trailing {text : List Char} {token : Token}
    (member : token ∈ singles (trailing text)) : token.expectsOperand = true := by
  obtain ⟨c, dangling, single⟩ := List.mem_filterMap.mp member
  rcases ofChar?_of_danglesAtEnd (danglesAtEnd_of_mem_trailing dangling) single with
    ⟨_, rfl⟩ | ⟨op, _, rfl⟩ <;> rfl

theorem flatMap_text_singles {text : List Char} (dangles : ∀ c ∈ text, danglesAtEnd c = true) :
    (singles text).flatMap Token.text = text.filter (!isBlank ·) := by
  induction text with
  | nil => rfl
  | cons c text ih =>
    have behind := ih fun d member => dangles d (List.mem_cons_of_mem c member)
    rw [singles] at behind
    rw [singles, List.filterMap_cons]
    cases single : Token.ofChar? c with
    | none =>
      have blank := isBlank_of_danglesAtEnd (dangles c List.mem_cons_self) single
      rw [List.filter_cons_of_neg (by simp [blank])]
      exact behind
    | some token =>
      dsimp only
      rw [List.flatMap_cons, behind, (Token.text_of_ofChar? single).1,
        List.filter_cons_of_pos (by simp [not_isBlank_of_ofChar? single])]
      rfl

theorem flatMap_text_singles_leading (text : List Char) :
    (singles (leading text)).flatMap Token.text = (leading text).filter (!isBlank ·) :=
  flatMap_text_singles fun c member =>
    (danglesAtEnd_iff c).mpr (.inl (danglesAtStart_of_mem_leading member))

theorem flatMap_text_singles_trailing (text : List Char) :
    (singles (trailing text)).flatMap Token.text = (trailing text).filter (!isBlank ·) :=
  flatMap_text_singles fun _ member => danglesAtEnd_of_mem_trailing member

/-! ## The ends of what is left -/

theorem not_danglesAtStart_of_mem_head? {text : List Char} {c : Char}
    (first : c ∈ (trimDangling text ++ trailing text).head?) : danglesAtStart c = false := by
  have stop := List.head?_dropWhile_not danglesAtStart text
  rw [trimDangling_append_trailing, Option.mem_def] at first
  rwa [first] at stop

theorem not_danglesAtEnd_of_mem_getLast? {text : List Char} {c : Char}
    (last : c ∈ (trimDangling text).getLast?) : danglesAtEnd c = false := by
  have stop := List.head?_dropWhile_not danglesAtEnd (text.dropWhile danglesAtStart).reverse
  rw [trimDangling, List.getLast?_reverse, Option.mem_def] at last
  rwa [last] at stop

theorem not_isBlank_of_not_danglesAtStart {c : Char} (stays : danglesAtStart c = false) :
    isBlank c = false := by
  refine Bool.eq_false_iff.mpr fun blank => ?_
  simp [danglesAtStart, blank] at stays

theorem not_isBlank_of_not_danglesAtEnd {c : Char} (stays : danglesAtEnd c = false) :
    isBlank c = false := by
  refine not_isBlank_of_not_danglesAtStart (Bool.eq_false_iff.mpr fun dangles => ?_)
  rw [(danglesAtEnd_iff c).mpr (.inl dangles)] at stays
  cases stays

section Ends

variable {tokens : List Token} {text : List Char}
  (made : tokens.flatMap Token.text = text.filter (!isBlank ·))
include made

/-- A text that starts with nothing that dangles starts with a token that needs no left operand. -/
theorem not_lacksLeft_of_mem_head? (starts : ∀ c ∈ text.head?, danglesAtStart c = false) :
    ∀ token ∈ tokens.head?, token.lacksLeft = false := by
  intro token first
  refine Bool.eq_false_iff.mpr fun lacks => ?_
  obtain ⟨rest, rfl⟩ := List.head?_eq_some_iff.mp first
  match token, lacks with
  | .operator (.binary op), lacks =>
    have no_minus : op ≠ .sub := by simpa [Token.lacksLeft] using lacks
    cases text with
    | nil => cases made
    | cons c tail =>
      have stays := starts c rfl
      rw [List.filter_cons_of_pos (by simp [not_isBlank_of_not_danglesAtStart stays])] at made
      -- the operator is the first character, and that does not dangle
      have same : op.symbol = c := (List.cons_eq_cons.mp made).1
      rw [← same] at stays
      cases op <;> first | exact absurd rfl no_minus | exact absurd stays (by decide)

/-- A text that ends with nothing that dangles ends with a token that waits for nothing. -/
theorem not_expectsOperand_of_mem_getLast? (ends : ∀ c ∈ text.getLast?, danglesAtEnd c = false) :
    ∀ token ∈ tokens.getLast?, token.expectsOperand = false := by
  intro token last
  refine Bool.eq_false_iff.mpr fun expects => ?_
  obtain ⟨earlier, rfl⟩ := List.getLast?_eq_some_iff.mp last
  obtain ⟨s, written, dangles⟩ : ∃ s, token.text = [s] ∧ danglesAtEnd s = true := by
    match token, expects with
    | .opening, _ => exact ⟨'(', rfl, by decide⟩
    | .operator .root, _ => exact ⟨'√', rfl, by decide⟩
    | .operator (.binary op), _ => exact ⟨op.symbol, rfl, by cases op <;> decide⟩
  rw [List.flatMap_append, List.flatMap_singleton, written] at made
  rcases List.eq_nil_or_concat text with rfl | ⟨front, c, rfl⟩
  · simp at made
  · have stays := ends c (by simp)
    have blank := not_isBlank_of_not_danglesAtEnd stays
    -- the token is the last character, and that does not dangle
    have same : s = c := by simpa [List.filter_append, blank] using congrArg List.getLast? made
    rw [← same, dangles] at stays
    cases stays

end Ends

/-! ## The tokens of a trimmed text -/

section Trimmed

variable {text : List Char} {tokens : List Token}
  (scanned : scan (trimDangling text) = .ok tokens) (blank : ∀ c ∈ skipped text, isBlank c = true)
include scanned

theorem scan_of_scan_trimDangling :
    scan text = .ok (singles (leading text) ++ (tokens ++ singles (trailing text))) := by
  rw [scan_eq_map_scan_trimDangling, scanned]
  rfl

include blank

/-- Nothing but blanks is skipped in what is left either. -/
theorem flatMap_text_trimDangling :
    tokens.flatMap Token.text = (trimDangling text).filter (!isBlank ·) := by
  have whole := (scans_of_scanFrom (scan_of_scan_trimDangling scanned)).flatMap_text blank
  have parts : text.filter (!isBlank ·) = (leading text).filter (!isBlank ·) ++
      ((trimDangling text).filter (!isBlank ·) ++ (trailing text).filter (!isBlank ·)) := by
    rw [← List.filter_append, ← List.filter_append, leading_append_trimDangling_append_trailing]
  rw [parts, List.flatMap_append, List.flatMap_append, flatMap_text_singles_leading,
    flatMap_text_singles_trailing] at whole
  exact List.append_cancel_right (List.append_cancel_left whole)

/-- What the preview sets aside of a text are its dangling tokens. -/
theorem trimTokens_of_scan_trimDangling :
    trimTokens (singles (leading text) ++ (tokens ++ singles (trailing text))) = tokens := by
  have made := flatMap_text_trimDangling scanned blank
  have both : (tokens ++ singles (trailing text)).flatMap Token.text =
      (trimDangling text ++ trailing text).filter (!isBlank ·) := by
    rw [List.flatMap_append, made, flatMap_text_singles_trailing, List.filter_append]
  have start : (tokens ++ singles (trailing text)).takeWhile Token.lacksLeft = [] :=
    takeWhile_eq_nil
      (not_lacksLeft_of_mem_head? both fun _ first => not_danglesAtStart_of_mem_head? first)
  have stop : tokens.reverse.takeWhile Token.expectsOperand = [] := by
    refine takeWhile_eq_nil fun token last => ?_
    rw [List.head?_reverse] at last
    exact not_expectsOperand_of_mem_getLast? made
      (fun _ last => not_danglesAtEnd_of_mem_getLast? last) token last
  rw [trimTokens, dropWhile_append_of_stop (fun _ => lacksLeft_of_mem_singles_leading) start,
    List.rdropWhile, List.reverse_append, dropWhile_append_of_stop _ stop, List.reverse_reverse]
  exact fun token member =>
    expectsOperand_of_mem_singles_trailing (List.mem_reverse.mp member)

/-- Where no token is left, no character is left either. -/
theorem trimDangling_eq_nil_iff : trimDangling text = [] ↔ tokens = [] := by
  constructor
  · intro nothing
    exact Decidable.byContradiction fun some_token => ne_nil_of_scan scanned some_token nothing
  · rintro rfl
    have made := flatMap_text_trimDangling scanned blank
    rcases List.eq_nil_or_concat (trimDangling text) with nothing | ⟨front, c, shape⟩
    · exact nothing
    · have last : c ∈ (trimDangling text).getLast? := by simp [shape]
      have stays := not_danglesAtEnd_of_mem_getLast? last
      rw [shape, List.concat_eq_append, List.filter_append] at made
      simp [not_isBlank_of_not_danglesAtEnd stays] at made

end Trimmed

/-- A text fails to scan exactly as the trimmed text does. If it scans and nothing but blanks is
skipped, the trimmed text has the tokens that do not dangle, and the preview is a zero where none is
left, the value of these tokens where they have one, and empty where they have none. -/
theorem scan_trimDangling (text : List Char) :
    (∀ fault, scan text = .error fault ↔ scan (trimDangling text) = .error fault) ∧
      ∀ tokens, scan text = .ok tokens → (∀ c ∈ skipped text, isBlank c = true) →
        scan (trimDangling text) = .ok (trimTokens tokens) ∧
          preview text =
            if trimTokens tokens = [] then ['0']
            else match (Machine.run (polish (trimTokens tokens)) : Evaluation) with
              | .ok value => value.display
              | .error _ => [] := by
  refine ⟨fun fault => ?_, fun tokens scanned blank => ?_⟩
  · rw [scan_eq_map_scan_trimDangling]
    cases scan (trimDangling text) <;> simp [Except.map]
  · cases trimmed : scan (trimDangling text) with
    | error fault => simp [scan_eq_map_scan_trimDangling text, trimmed, Except.map] at scanned
    | ok rest =>
      rw [scan_of_scan_trimDangling trimmed] at scanned
      cases scanned
      rw [trimTokens_of_scan_trimDangling trimmed blank, preview_eq]
      refine ⟨rfl, ?_⟩
      by_cases nothing : rest = []
      · rw [if_pos nothing, (trimDangling_eq_nil_iff trimmed blank).mpr nothing]
        decide +kernel
      · have some_text := mt (trimDangling_eq_nil_iff trimmed blank).mp nothing
        rw [if_neg nothing, evaluate_eq some_text, trimmed]
        rfl

/-- The sign of a factor is kept, an operator that waits for a number goes. -/
theorem scan_trimDangling_product :
    let text := "+ 2*-3 ^ -(".toList
    let product : List Token :=
      [.literal "2".toList, .operator (.binary .mul), .literal "-3".toList]
    let tokens := .operator (.binary .add) ::
      (product ++ [.operator (.binary .pow), .operator (.binary .sub), .opening])
    scan text = .ok tokens ∧ (∀ c ∈ skipped text, isBlank c = true) ∧
      scan (trimDangling text) = .ok product ∧ preview text = "-6".toList := by
  intro text product tokens
  have scanned : scan text = .ok tokens := by decide +kernel
  have blank : ∀ c ∈ skipped text, isBlank c = true :=
    List.all_eq_true.mp (by decide +kernel)
  have trimmed : trimTokens tokens = product := by decide
  have value : (Machine.run (polish product) : Evaluation) =
      .ok (.finite ⟨true, 6755399441055744, -50, by decide⟩) := by decide +kernel
  obtain ⟨left, shown⟩ := (scan_trimDangling text).2 tokens scanned blank
  rw [trimmed] at left shown
  rw [if_neg (by decide), value] at shown
  refine ⟨scanned, blank, left, shown.trans ?_⟩
  decide +kernel

end DeskCalculator
