import DeskCalculator.Proofs.Session.Answers

/-!
# Sessions as replays

The settings of a session decide what of its answers is written, and the clipboard what is said of
a result that is to be copied; with any of them the same lines of input leave the same line. Nor does
it matter where typed text is cut into lines, or what follows the line that ends the session. What is
written without previews is what is written with them, less the results that are previews.
-/
namespace DeskCalculator

/-! ## Exchanges -/

/-- What a session that shows previews makes of a line of input: whether anything is committed, and
the lines that it writes. -/
structure Exchange where
  commits : Bool
  written : List (List Char)

namespace Exchange

def ofRequest (clipboard : Clipboard) (line : Line) (request : Request) : Exchange :=
  ⟨!(line.applyAll request.edits).2.isEmpty, (line.respond request).2.lines clipboard true⟩

def isResultLine (text : List Char) : Bool := ['=', ' '].isPrefixOf text

/-- The exchange where previews are not wanted. -/
def withoutPreview (exchange : Exchange) : Exchange :=
  if exchange.commits then exchange
  else { exchange with written := exchange.written.filter (!isResultLine ·) }

/-- The exchange as it is written, with a preview or without. -/
def shown (exchange : Exchange) (showPreview : Bool) : Exchange :=
  if showPreview then exchange else exchange.withoutPreview

def text (exchange : Exchange) : List Char := exchange.written.flatMap (· ++ ['\n'])

end Exchange

/-- The exchanges of a session, one for each line of input that is answered. -/
def Session.exchanges (clipboard : Clipboard) (line : Line) :
    List (Option (List Char)) → List Exchange
  | some text :: rest =>
    let request := Request.ofLine text
    if request = .quit then []
    else .ofRequest clipboard line request :: exchanges clipboard (line.respond request).1 rest
  | _ => []

/-! ## Answers without previews -/

theorem Line.mem_marked {line : Line} {c : Char} (member : c ∈ line.marked) :
    c ∈ line.text ∨ c = '|' ∨ c = '0' := by
  rw [Line.marked] at member
  split at member
  · rw [Line.expression] at member
    split at member
    · exact .inr (.inr (List.mem_singleton.mp member))
    · exact .inl member
  · rw [Line.text, List.mem_append]
    rcases List.mem_append.mp member with before | behind
    · exact .inl (.inl before)
    · rcases List.mem_cons.mp behind with bar | after
      · exact .inr (.inl bar)
      · exact .inl (.inr after)

namespace Exchange

variable {line : Line}

theorem isResultLine_eq_false {text : List Char} (first : text.head? ≠ some '=') :
    isResultLine text = false := by
  refine Bool.eq_false_iff.mpr fun result => first ?_
  obtain ⟨rest, rfl⟩ := List.isPrefixOf_iff_prefix.mp result
  rfl

/-- The expression is never taken for a result. -/
theorem isResultLine_marked (plain : Plain line.text) : isResultLine line.marked = false := by
  refine isResultLine_eq_false fun first => ?_
  rcases Line.mem_marked (List.mem_of_mem_head? first) with in_text | bar | zero
  · exact plain.not_mem (by decide) in_text
  · exact absurd bar (by decide)
  · exact absurd zero (by decide)

theorem lines_view (plain : Plain line.text) (clipboard : Clipboard) (committed : Bool) :
    (Reply.view line committed).lines clipboard false =
      (withoutPreview ⟨committed, (Reply.view line committed).lines clipboard true⟩).written := by
  cases committed with
  | true => rfl
  | false =>
    have expression := isResultLine_marked plain
    have result : isResultLine ('=' :: ' ' :: line.result) = true := rfl
    by_cases no_result : line.result = [] <;>
      simp [Reply.lines, withoutPreview, no_result, expression, result]

/-- Lines of which none is a result are the same without previews. -/
theorem eq_written_withoutPreview {written : List (List Char)}
    (no_result : ∀ text ∈ written, isResultLine text = false) (commits : Bool) :
    written = (withoutPreview ⟨commits, written⟩).written := by
  cases commits with
  | true => rfl
  | false =>
    refine (List.filter_eq_self.mpr fun text member => ?_).symm
    rw [no_result text member, Bool.not_false]

theorem eq_written_withoutPreview_singleton {text : List Char} (first : text.head? ≠ some '=')
    (commits : Bool) : [text] = (withoutPreview ⟨commits, [text]⟩).written :=
  eq_written_withoutPreview (List.forall_mem_singleton.mpr (isResultLine_eq_false first)) commits

/-- An answer that does not show the line holds no result. -/
theorem lines_of_ne_view {reply : Reply} (no_view : ∀ line committed, reply ≠ .view line committed)
    (clipboard : Clipboard) (commits : Bool) :
    reply.lines clipboard false =
      (withoutPreview ⟨commits, reply.lines clipboard true⟩).written := by
  cases reply with
  | view line committed => exact absurd rfl (no_view line committed)
  | help =>
    have first : ∀ text ∈ Reply.helpText, text.head? ≠ some '=' := by simp [Reply.helpText]
    exact eq_written_withoutPreview
      (fun text member => isResultLine_eq_false (first text member)) commits
  | badPosition word => exact eq_written_withoutPreview_singleton (by simp) commits
  | nothingToCopy => exact eq_written_withoutPreview_singleton (by decide) commits
  | copy number =>
    have same : (Reply.copy number).lines clipboard false =
        (Reply.copy number).lines clipboard true := rfl
    obtain ⟨said, lines, first⟩ := Reply.exists_lines_copy clipboard true number
    have no_result : said.head? ≠ some '=' := by rcases first with first | first <;> simp [first]
    rw [same, lines]
    exact eq_written_withoutPreview_singleton no_result commits
  | unknown command => exact eq_written_withoutPreview_singleton (by simp) commits
  | farewell => cases commits <;> rfl

/-- An answer without previews is the answer with them, less the result if nothing is committed. -/
theorem lines_respond (plain : Plain line.text) (clipboard : Clipboard) (request : Request) :
    (line.respond request).2.lines clipboard false =
      (ofRequest clipboard line request).withoutPreview.written := by
  by_cases viewed : ∃ shown committed, (line.respond request).2 = .view shown committed
  · obtain ⟨shown, committed, view⟩ := viewed
    obtain ⟨rfl, commits⟩ := Line.eq_of_reply_eq_view view
    rw [ofRequest, ← commits, view]
    exact lines_view (Session.plain_respond request plain) clipboard committed
  · have no_view (shown : Line) (committed : Bool) :
        (line.respond request).2 ≠ .view shown committed :=
      fun view => viewed ⟨shown, committed, view⟩
    exact lines_of_ne_view no_view clipboard _

theorem text_shown_ofRequest (plain : Plain line.text) (clipboard : Clipboard) (request : Request)
    (showPreview : Bool) :
    ((ofRequest clipboard line request).shown showPreview).text =
      (line.respond request).2.render clipboard showPreview := by
  cases showPreview with
  | true => rfl
  | false => rw [Reply.render, lines_respond plain, shown, if_neg Bool.false_ne_true, text]

end Exchange

namespace Session

variable {clipboard : Clipboard} {line : Line} {text : List Char} {rest : List (Option (List Char))}

theorem exchanges_of_ends {inputs : List (Option (List Char))} (ends : Ends inputs) :
    exchanges clipboard line inputs = [] := by
  match inputs with
  | [] | none :: _ => rfl
  | some text :: rest => exact if_pos (Request.ofLine_eq_quit_iff.mpr (ends text rest rfl))

theorem exchanges_cons (goes_on : ¬Quits text) (rest : List (Option (List Char))) :
    exchanges clipboard line (some text :: rest) =
      .ofRequest clipboard line (Request.ofLine text) ::
        exchanges clipboard (line.respond (Request.ofLine text)).1 rest :=
  if_neg fun quit => goes_on (Request.ofLine_eq_quit_iff.mp quit)

/-- What a session writes are the exchanges, with their previews or without. -/
theorem output_answers (plain : Plain line.text) (clipboard : Clipboard) (settings : Settings)
    (interactive : Bool) (inputs : List (Option (List Char))) :
    (answers clipboard settings interactive line inputs).output =
      (exchanges clipboard line inputs).flatMap fun exchange =>
        (exchange.shown settings.showPreview).text ++ prompt settings interactive := by
  induction line, inputs using induction_on with
  | ended line inputs ends => rw [answers_of_ends ends, exchanges_of_ends ends, List.flatMap_nil]
  | answered line text rest goes_on ih =>
    have later := ih (plain_respond _ plain)
    rw [answers_cons goes_on, exchanges_cons goes_on, List.flatMap_cons, ← later,
      Exchange.text_shown_ofRequest plain]
    rfl

/-! ## Cutting and ending -/

/-- Lines of input that are no commands are typed one behind the other. -/
theorem line_answers_texts {texts : List (List Char)}
    (no_commands : ∀ text ∈ texts, ¬IsCommand text) (clipboard : Clipboard) (settings : Settings)
    (interactive : Bool) :
    (answers clipboard settings interactive line (texts.map some)).line =
      (line.typeText texts.flatten).1 := by
  induction texts generalizing line with
  | nil => rfl
  | cons text texts ih =>
    obtain ⟨no_command, others⟩ := List.forall_mem_cons.mp no_commands
    have goes_on : ¬Quits text := fun quits => no_command quits.1
    rw [List.map_cons, answers_cons goes_on, Request.ofLine_of_not_isCommand no_command,
      List.flatten_cons, Line.typeText_append]
    exact ih others

theorem line_answers_append_texts {texts : List (List Char)}
    (no_commands : ∀ text ∈ texts, ¬IsCommand text) (clipboard : Clipboard) (settings : Settings)
    (interactive : Bool) (front : List (Option (List Char))) :
    (answers clipboard settings interactive line (front ++ texts.map some)).line =
      (answers clipboard settings interactive line (front ++ [some texts.flatten])).line := by
  by_cases goes_on : GoesOn front
  · have joined : ∀ text ∈ [texts.flatten], ¬IsCommand text :=
      List.forall_mem_singleton.mpr (not_isCommand_flatten no_commands)
    rw [answers_append goes_on, answers_append goes_on]
    calc (answers clipboard settings interactive _ (texts.map some)).line
      _ = (Line.typeText _ texts.flatten).1 := line_answers_texts no_commands _ _ _
      _ = (Line.typeText _ [texts.flatten].flatten).1 := by rw [List.flatten_singleton]
      _ = (answers clipboard settings interactive _ [some texts.flatten]).line :=
        (line_answers_texts joined clipboard settings interactive).symm
  · rw [answers_append_of_not_goesOn goes_on, answers_append_of_not_goesOn goes_on]

theorem answers_append_quits (quits : Quits text) (clipboard : Clipboard) (settings : Settings)
    (interactive : Bool) (front rest : List (Option (List Char))) :
    answers clipboard settings interactive line (front ++ some text :: rest) =
      answers clipboard settings interactive line (front ++ [some text]) := by
  by_cases goes_on : GoesOn front
  · rw [answers_append goes_on, answers_append goes_on, answers_of_ends (ends_of_quits quits rest),
      answers_of_ends (ends_of_quits quits [])]
    rfl
  · rw [answers_append_of_not_goesOn goes_on, answers_append_of_not_goesOn goes_on]

/-! ## Sessions -/

theorem output_transcript (clipboard : Clipboard) (settings : Settings)
    (inputs : List (Option (List Char))) :
    (transcript settings false inputs clipboard).output =
      ((exchanges clipboard .empty inputs).map (·.shown settings.showPreview)).flatMap
        Exchange.text := by
  have plain : Plain Line.empty.text := plain_nil
  have output := output_answers plain clipboard settings false inputs
  simpa [transcript, greeting, prompt, List.flatMap_map] using output

theorem transcript_append {front : List (Option (List Char))} (goes_on : GoesOn front)
    (clipboard : Clipboard) (settings : Settings) (interactive : Bool)
    (rest : List (Option (List Char))) :
    transcript settings interactive (front ++ rest) clipboard =
      (transcript settings interactive front clipboard).followedBy
        (answers clipboard settings interactive
          (transcript settings interactive front clipboard).line rest) := by
  simp only [transcript, answers_append goes_on, Transcript.followedBy, List.append_assoc]

/-- A session is a replay of its lines of input. It goes on from the line that the first of them
have left; with any settings and any clipboard, and with a person or without, they leave the same
line, and are readable or not. Texts that are typed one by one leave the line that they leave when
they are typed as one. Nothing behind a line of input that ends the session counts. Without a
person, a session that shows no previews writes what one that shows them does, less the results at
the lines of input that commit nothing. -/
theorem transcript_replays :
    (∀ (clipboard : Clipboard) (settings : Settings) (interactive : Bool)
      (front rest : List (Option (List Char))),
      GoesOn front → transcript settings interactive (front ++ rest) clipboard =
        (transcript settings interactive front clipboard).followedBy
          (answers clipboard settings interactive
            (transcript settings interactive front clipboard).line rest)) ∧
    (∀ (clipboard clipboard' : Clipboard) (settings settings' : Settings)
      (interactive interactive' : Bool) (inputs : List (Option (List Char))),
        (transcript settings interactive inputs clipboard).line =
            (transcript settings' interactive' inputs clipboard').line ∧
          (transcript settings interactive inputs clipboard).readable =
            (transcript settings' interactive' inputs clipboard').readable) ∧
    (∀ (clipboard : Clipboard) (settings : Settings) (interactive : Bool)
      (front : List (Option (List Char))) (texts : List (List Char)),
      (∀ text ∈ texts, ¬IsCommand text) →
        (transcript settings interactive (front ++ texts.map some) clipboard).line =
          (transcript settings interactive (front ++ [some texts.flatten]) clipboard).line) ∧
    (∀ (clipboard : Clipboard) (settings : Settings) (interactive : Bool)
      (front : List (Option (List Char))) (text : List Char) (rest : List (Option (List Char))),
      Quits text →
        transcript settings interactive (front ++ some text :: rest) clipboard =
          transcript settings interactive (front ++ [some text]) clipboard) ∧
    ∀ (clipboard : Clipboard) (settings : Settings) (inputs : List (Option (List Char))),
      (transcript settings false inputs clipboard).output =
        if settings.showPreview then (exchanges clipboard .empty inputs).flatMap Exchange.text
        else ((exchanges clipboard .empty inputs).map Exchange.withoutPreview).flatMap
          Exchange.text := by
  refine ⟨fun clipboard settings interactive front rest goes_on => ?_,
    fun clipboard clipboard' settings settings' interactive interactive' inputs => ?_,
    fun clipboard settings interactive front texts no_commands => ?_,
    fun clipboard settings interactive front text rest quits => ?_,
    fun clipboard settings inputs => ?_⟩
  · exact transcript_append goes_on clipboard settings interactive rest
  · exact answers_congr clipboard clipboard' settings settings' interactive interactive' .empty
      inputs
  · exact line_answers_append_texts no_commands clipboard settings interactive front
  · rw [transcript, transcript, answers_append_quits quits]
  · rw [output_transcript]
    cases settings.showPreview with
    | true => simp [Exchange.shown]
    | false => rfl

/-- A sum that is typed in two parts, after a line of input that fails to evaluate. -/
theorem transcript_replays_sum :
    let front := [some "2*/=".toList, some "c".toList]
    let texts := ["1+".toList, "2=".toList]
    let quit := " :quit now".toList
    let clipboard := Clipboard.unreachable
    GoesOn front ∧ (∀ text ∈ texts, ¬IsCommand text) ∧ Quits quit ∧
      transcript .standard true (front ++ [some "1".toList]) clipboard =
        (transcript .standard true front clipboard).followedBy
          (answers clipboard .standard true (transcript .standard true front clipboard).line
            [some "1".toList]) ∧
      (transcript .standard false (front ++ texts.map some) clipboard).line =
        (transcript .standard false (front ++ [some "1+2=".toList]) clipboard).line ∧
      transcript .standard true (front ++ [some quit, some "5".toList]) clipboard =
        transcript .standard true (front ++ [some quit]) clipboard := by
  intro front texts quit clipboard
  have quits : Quits quit := ⟨by decide, "quit".toList, by decide +kernel, .inr rfl⟩
  have no_commands : ∀ text ∈ texts, ¬IsCommand text := by decide
  have typed (text : List Char) (no_command : ¬IsCommand text) : ¬Quits text :=
    fun quits => no_command quits.1
  have goes_on : GoesOn front :=
    goesOn_cons_iff.mpr ⟨typed _ (by decide), goesOn_cons_iff.mpr ⟨typed _ (by decide), goesOn_nil⟩⟩
  obtain ⟨continues, _, joins, stops, _⟩ := transcript_replays
  exact ⟨goes_on, no_commands, quits,
    continues clipboard .standard true front [some "1".toList] goes_on,
    joins clipboard .standard false front texts no_commands,
    stops clipboard .standard true front quit [some "5".toList] quits⟩

end Session

end DeskCalculator
