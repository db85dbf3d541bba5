import DeskCalculator.Proofs.Editor.AtEnd
import DeskCalculator.Proofs.Editor.Points
import DeskCalculator.Proofs.Grammar
import Mathlib.Data.List.Chain

/-!
# Typing an expression

Nothing is refused and nothing collapses while an expression is typed that is in order: a point
stands behind the digits of its own number, an operator behind an operand, and a sign where no minus
stands before it. So the line holds the expression as it was typed, and a commit shows what it would
show had the whole text been put in at once.
-/
namespace DeskCalculator

open Numeral

/-! ## Expressions in order -/

/-- The text of a literal without sign and exponent: digits, and perhaps a point behind them that
may have further digits behind it. -/
inductive Figures : List Char → Prop where
  | whole {digits : List Char} (all : AllDigits digits) (some_digit : digits ≠ []) : Figures digits
  | pointed {digits fraction : List Char} (all : AllDigits digits) (some_digit : digits ≠ [])
      (all_fraction : AllDigits fraction) : Figures (digits ++ '.' :: fraction)

namespace Token

/-- A token that is no literal, or the literal of a number that is written without an exponent. -/
inductive Plain : Token → Prop where
  | unsigned {figures : List Char} (plain : Figures figures) : Plain (.literal figures)
  | signed {figures : List Char} (plain : Figures figures) : Plain (.literal ('-' :: figures))
  | operator (op : Operator) : Plain (.operator op)
  | opening : Plain .opening
  | closing : Plain .closing

/-- Whether the token is a literal with a minus. -/
def isSigned : Token → Bool
  | .literal text => text.head? == some '-'
  | _ => false

/-- Whether a literal with a minus may follow the token: an opening, a root or a binary operator but
the minus. -/
def allowsSign : Token → Bool
  | .opening => true
  | .operator op => op != .binary .sub
  | _ => false

end Token

/-- Literals have a minus only at the start and behind tokens that allow for it. -/
def SignsApart (tokens : List Token) : Prop :=
  tokens.IsChain fun previous token => token.isSigned = true → previous.allowsSign = true

/-- The tokens of an expression in order. -/
structure Typeable (tokens : List Token) : Prop where
  derives : ∃ tree, Derives .sum tokens tree
  literals : ∀ token ∈ tokens, token.Plain
  signs : SignsApart tokens

/-- The text of tokens, with nothing between them. -/
def written (tokens : List Token) : List Char := tokens.flatMap Token.text

/-! ## Typing a text -/

/-- Typing the text at the end of a line, behind the characters `before`, puts it in as it
stands. -/
def TypesAs (before text : List Char) : Prop :=
  (Line.mk before [] none).typeText text = (⟨text.reverse ++ before, [], none⟩, [])

variable {before : List Char}

theorem typesAs_nil : TypesAs before [] := rfl

theorem TypesAs.append {front back : List Char} (first : TypesAs before front)
    (second : TypesAs (front.reverse ++ before) back) : TypesAs before (front ++ back) := by
  rw [TypesAs] at first second
  rw [TypesAs, Line.typeText_append, first, second]
  simp

theorem typesAs_single {c : Char} {edit : Edit} (does : Edit.ofChar? c = some edit)
    (puts : (Line.mk before [] none).apply edit = (⟨c :: before, [], none⟩, none)) :
    TypesAs before [c] := by
  rw [TypesAs, Line.typeText, List.filterMap_cons, does, List.filterMap_nil]
  simp only [Line.applyAll, puts]
  rfl

theorem typesAs_digits {digits : List Char} (all : AllDigits digits) :
    TypesAs before digits := by
  induction digits generalizing before with
  | nil => exact typesAs_nil
  | cons c digits ih =>
    have digit := all c List.mem_cons_self
    have first : TypesAs before [c] := by
      have does : Edit.ofChar? c = some (.digit c) := if_pos (.inl digit)
      refine typesAs_single does ?_
      rw [Line.apply, Line.typeDigit, if_pos digit]
      rfl
    exact first.append (ih fun d member => all d (List.mem_cons_of_mem c member))

/-! ## The number at the end -/

theorem not_isExponentMark_of_isBoundary {c : Char} (boundary : isBoundary c = true) :
    isExponentMark c = false := by
  refine Bool.eq_false_iff.mpr fun mark => ?_
  rcases (isExponentMark_iff c).mp mark with rfl | rfl <;> exact absurd boundary (by decide)

theorem not_barsPoint_of_isDigit {c : Char} (digit : c.isDigit = true) : barsPoint c = false := by
  refine Bool.or_eq_false_iff.mpr
    ⟨?_, not_isExponentMark_of_isRunChar (isRunChar_of_isDigit digit)⟩
  refine beq_eq_false_iff_ne.mpr ?_
  rintro rfl
  exact absurd digit (by decide)

theorem numberBefore_append {run : List Char} (all : ∀ c ∈ run, isRunChar c = true) :
    numberBefore (run ++ before) = run ++ numberBefore before := by
  induction run with
  | nil => rfl
  | cons c run ih =>
    rw [List.cons_append, numberBefore, endsNumber_of_isRunChar (all c List.mem_cons_self),
      ih fun d member => all d (List.mem_cons_of_mem c member)]
    rfl

theorem typesAs_point (some_digit : numberBefore before ≠ [])
    (free : (numberBefore before).any barsPoint = false) : TypesAs before ['.'] := by
  have does : Edit.ofChar? '.' = some (.digit '.') := rfl
  refine typesAs_single does ?_
  have unbarred : (numberBefore before ++ numberAfter before.head? []).any barsPoint = false := by
    rw [numberAfter, List.append_nil, free]
  have typed : (Line.mk before [] none).typePoint = (Line.mk before [] none).insert ['.'] := by
    simp only [Line.typePoint, unbarred, some_digit]
    rfl
  rw [Line.apply, Line.typeDigit, if_neg (by decide), if_pos rfl, typed]
  rfl

theorem typesAs_figures {figures : List Char} (plain : Figures figures)
    (opens : numberBefore before = []) : TypesAs before figures := by
  cases plain with
  | whole all => exact typesAs_digits all
  | @pointed digits fraction all some_digit all_fraction =>
    have all_reverse : AllDigits digits.reverse :=
      fun c member => all c (List.mem_reverse.mp member)
    -- the number before the point consists of its digits alone
    have number : numberBefore (digits.reverse ++ before) = digits.reverse := by
      rw [numberBefore_append fun c member => isRunChar_of_isDigit (all_reverse c member), opens,
        List.append_nil]
    have point : TypesAs (digits.reverse ++ before) ['.'] := by
      refine typesAs_point (by simp [number, some_digit]) ?_
      rw [number]
      refine List.any_eq_false.mpr fun c member => ?_
      rw [not_barsPoint_of_isDigit (all_reverse c member)]
      exact Bool.false_ne_true
    exact (typesAs_digits all).append (point.append (typesAs_digits all_fraction))

theorem Figures.all_isRunChar {figures : List Char} (plain : Figures figures) :
    ∀ c ∈ figures, isRunChar c = true := by
  intro c member
  cases plain with
  | whole all => exact isRunChar_of_isDigit (all c member)
  | pointed all _ all_fraction =>
    rcases List.mem_append.mp member with first | second
    · exact isRunChar_of_isDigit (all c first)
    · rcases List.mem_cons.mp second with rfl | second
      · rfl
      · exact isRunChar_of_isDigit (all_fraction c second)

theorem Figures.ne_nil {figures : List Char} (plain : Figures figures) : figures ≠ [] := by
  cases plain with
  | whole _ some_digit => exact some_digit
  | pointed => simp

/-! ## Operators and parentheses -/

/-- The nearest character before the cursor is one that an operand may end in. -/
def EndsOperand (before : List Char) : Prop :=
  ∃ c rest, before = c :: rest ∧ isBinarySymbol c = false ∧ isExponentMark c = false

theorem Figures.endsOperand {figures : List Char} (plain : Figures figures) :
    EndsOperand (figures.reverse ++ before) := by
  obtain ⟨c, rest, shape⟩ :=
    List.exists_cons_of_ne_nil (List.reverse_eq_nil_iff.not.mpr plain.ne_nil)
  have run : isRunChar c = true := by
    refine plain.all_isRunChar c (List.mem_reverse.mp ?_)
    rw [shape]
    exact List.mem_cons_self
  exact ⟨c, rest ++ before, by rw [shape, List.cons_append], isBinarySymbol_of_isRunChar run,
    not_isExponentMark_of_isRunChar run⟩

/-- An operator is put in where nothing collapses before it. -/
theorem typesAs_binary {op : BinaryOperator} (start : before = [] → op = .sub)
    (keeps : ∀ kept, Collapse op before kept → kept = before) : TypesAs before [op.symbol] := by
  have does : Edit.ofChar? op.symbol = some (.operator (.binary op)) := by
    cases op <;> rfl
  refine typesAs_single does ?_
  rw [Line.apply, Line.typeOperator]
  rcases (Line.mk before [] none).typeBinary_collapse op with
    ⟨nothing, no_sign, _⟩ | ⟨kept, collapse, typed⟩
  · exact absurd (start nothing) no_sign
  · rw [typed, keeps kept collapse]

theorem EndsOperand.typesAs_binary (ends : EndsOperand before) (op : BinaryOperator) :
    TypesAs before [op.symbol] := by
  obtain ⟨c, rest, rfl, operand, _⟩ := ends
  refine DeskCalculator.typesAs_binary (fun nothing => by cases nothing) fun kept collapse => ?_
  cases collapse with
  | operand | sign => rfl
  | signed => exact absurd operand (by decide)
  | single binary =>
    rw [operand] at binary
    cases binary

theorem typesAs_sign (no_minus : before.head? ≠ some '-') : TypesAs before ['-'] := by
  have keeps (kept : List Char) (collapse : Collapse .sub before kept) : kept = before := by
    cases collapse with
    | first | operand | sign => rfl
    | signed => exact absurd rfl no_minus
    | single _ _ no_sign => exact absurd (by rw [no_sign rfl]; rfl) no_minus
  exact typesAs_binary (fun _ => rfl) keeps

/-- A number begins behind an operator that follows an operand. -/
theorem EndsOperand.numberBefore_symbol (ends : EndsOperand before) (op : BinaryOperator) :
    numberBefore (op.symbol :: before) = [] := by
  obtain ⟨c, rest, rfl, _, no_mark⟩ := ends
  have boundary : isBoundary op.symbol = true := by cases op <;> decide
  simp [numberBefore, endsNumber, boundary, no_mark]

theorem numberBefore_sign (opens : numberBefore before = []) :
    numberBefore ('-' :: before) = [] := by
  have boundary : isBoundary '-' = true := by decide
  cases before with
  | nil => decide
  | cons c rest =>
    -- a number begins behind the character, so it is no mark of an exponent
    have no_mark : isExponentMark c = false := by
      rw [numberBefore] at opens
      split at opens
      · next ends => exact not_isExponentMark_of_isBoundary (Bool.and_eq_true_iff.mp ends).1
      · cases opens
    simp [numberBefore, endsNumber, boundary, no_mark]

theorem typesAs_inserted {c : Char} (inserted : isInserted c) : TypesAs before [c] := by
  have does : Edit.ofChar? c = some (.insert [c]) := by
    rcases inserted with rfl | rfl | rfl <;> rfl
  exact typesAs_single does rfl

/-- A number begins behind an opening parenthesis and behind a root, whatever stands before. -/
theorem numberBefore_inserted {c : Char} (inserted : c = '(' ∨ c = '√') :
    numberBefore (c :: before) = [] := by
  rcases inserted with rfl | rfl
  · have boundary : isBoundary '(' = true := by decide
    simp [numberBefore, endsNumber, boundary]
  · have boundary : isBoundary '√' = true := by decide
    simp [numberBefore, endsNumber, boundary]

/-! ## Operands -/

/-- Where a number may begin, typing the tokens puts them in as they are written and leaves an
operand; a sign needs room for it. -/
def TypesOperand (tokens : List Token) : Prop :=
  ∀ before, numberBefore before = [] →
    (∀ token ∈ tokens.head?, token.isSigned = true → before.head? ≠ some '-') →
    TypesAs before (written tokens) ∧ EndsOperand ((written tokens).reverse ++ before)

theorem typesOperand_literal {text : List Char} (plain : (Token.literal text).Plain) :
    TypesOperand [.literal text] := by
  intro before opens room
  have text_eq : written [.literal text] = text := by simp [written, Token.text]
  rw [text_eq]
  cases plain with
  | unsigned figures => exact ⟨typesAs_figures figures opens, figures.endsOperand⟩
  | @signed digits figures =>
    have sign := typesAs_sign (room _ rfl rfl)
    have digits := typesAs_figures figures (numberBefore_sign opens)
    refine ⟨sign.append digits, ?_⟩
    rw [List.reverse_cons, List.append_assoc]
    exact figures.endsOperand

theorem TypesOperand.group {tokens : List Token} (inner : TypesOperand tokens) :
    TypesOperand (.opening :: tokens ++ [.closing]) := by
  intro before _ _
  -- an opening makes room for a sign, whatever stands before it
  obtain ⟨types, _⟩ := inner ('(' :: before) (numberBefore_inserted (.inl rfl)) (by simp)
  have text_eq : written (.opening :: tokens ++ [.closing]) = ['('] ++ written tokens ++ [')'] := by
    simp [written, Token.text]
  have opened : TypesAs before ['('] := typesAs_inserted (.inl rfl)
  have closed {before : List Char} : TypesAs before [')'] := typesAs_inserted (.inr (.inl rfl))
  rw [text_eq]
  refine ⟨(opened.append types).append closed, ?_⟩
  rw [List.reverse_append]
  exact ⟨')', _, rfl, by decide, by decide⟩

theorem TypesOperand.root {tokens : List Token} (operand : TypesOperand tokens) :
    TypesOperand (.operator .root :: tokens) := by
  intro before _ _
  obtain ⟨types, ends⟩ := operand ('√' :: before) (numberBefore_inserted (.inr rfl)) (by simp)
  have text_eq : written (.operator .root :: tokens) = ['√'] ++ written tokens := rfl
  have root : TypesAs before ['√'] := typesAs_inserted (.inr (.inr rfl))
  rw [text_eq]
  refine ⟨root.append types, ?_⟩
  rw [List.reverse_append, List.append_assoc]
  exact ends

/-- Behind an operand nothing collapses, and behind the operator there is room for a sign unless it
is a minus. -/
theorem TypesOperand.binary {op : BinaryOperator} {left right : List Token}
    (first : TypesOperand left) (second : TypesOperand right) (some_left : left ≠ [])
    (room : ∀ token ∈ right.head?, token.isSigned = true → op ≠ .sub) :
    TypesOperand (left ++ .operator (.binary op) :: right) := by
  intro before opens room_left
  -- the room before the whole is the room before its left operand
  have head : (left ++ .operator (.binary op) :: right).head? = left.head? :=
    List.head?_append_of_ne_nil _ some_left
  rw [head] at room_left
  obtain ⟨types, ends⟩ := first before opens room_left
  have room_right : ∀ token ∈ right.head?, token.isSigned = true →
      (op.symbol :: ((written left).reverse ++ before)).head? ≠ some '-' := by
    intro token member signed same
    have read := op.ofChar?_symbol
    rw [Option.some.inj same] at read
    exact room token member signed (Option.some.inj read).symm
  obtain ⟨types_right, ends_right⟩ := second _ (ends.numberBefore_symbol op) room_right
  have text_eq : written (left ++ .operator (.binary op) :: right) =
      written left ++ ([op.symbol] ++ written right) := by
    simp [written, Token.text, Operator.symbol]
  rw [text_eq]
  refine ⟨types.append ((ends.typesAs_binary op).append types_right), ?_⟩
  simpa using ends_right

theorem SignsApart.of_binary {left right : List Token} {op : BinaryOperator}
    (signs : SignsApart (left ++ .operator (.binary op) :: right)) :
    SignsApart left ∧ SignsApart right ∧
      ∀ token ∈ right.head?, token.isSigned = true → op ≠ .sub := by
  obtain ⟨first, second, _⟩ := List.isChain_append.mp signs
  obtain ⟨seam, rest⟩ := List.isChain_cons.mp second
  refine ⟨first, rest, fun token member signed => ?_⟩
  rintro rfl
  exact absurd (seam token member signed) (by decide)

theorem typesOperand_of_derives {s : Stratum} {tokens : List Token} {tree : Tree}
    (derives : Derives s tokens tree) (literals : ∀ token ∈ tokens, token.Plain)
    (signs : SignsApart tokens) : TypesOperand tokens := by
  -- the grammar tells where operands begin and end, the strata of precedence do not matter
  induction derives with
  | literal text => exact typesOperand_literal (literals _ List.mem_cons_self)
  | group inner ih =>
    refine (ih (fun token member => literals token (by simp [member])) ?_).group
    exact signs.infix ⟨[.opening], [.closing], rfl⟩
  | root operand ih =>
    exact (ih (fun token member => literals token (List.mem_cons_of_mem _ member)) signs.tail).root
  | power left right ihl ihr | product _ left right ihl ihr | sum _ left right ihl ihr =>
    obtain ⟨signs_left, signs_right, room⟩ := signs.of_binary
    exact (ihl (fun token member => literals token (by simp [member])) signs_left).binary
      (ihr (fun token member => literals token (by simp [member])) signs_right) left.ne_nil room
  | primary _ ih | prefixed _ ih | single _ ih | alone _ ih => exact ih literals signs

/-! ## The whole expression -/

theorem Typeable.typeText {tokens : List Token} (typeable : Typeable tokens) :
    written tokens ≠ [] ∧
      Line.empty.typeText (written tokens) = (Line.empty.insert (written tokens), []) := by
  obtain ⟨tree, derives⟩ := typeable.derives
  -- in an empty line a number may begin and there is room for a sign
  obtain ⟨types, c, rest, shape, _⟩ :=
    typesOperand_of_derives derives typeable.literals typeable.signs [] rfl fun _ _ _ => by simp
  refine ⟨?_, types⟩
  rintro nothing
  rw [nothing] at shape
  cases shape

theorem Line.text_insert_empty (text : List Char) : (Line.empty.insert text).text = text := by
  simp [Line.insert, Line.empty, Line.text]

theorem Line.typeText_commit (line : Line) :
    line.typeText ['='] = (line.commit.1, line.commit.2.toList) := by
  have does : Edit.ofChar? '=' = some .commit := rfl
  rw [Line.typeText, List.filterMap_cons, does, List.filterMap_nil]
  simp only [Line.applyAll, Line.apply, List.append_nil]

/-- Typing an expression in order leaves the line as putting its text in at once does, with the
cursor at the end, and the key of a commit has the outcome that a commit has behind the text put in
at once. -/
theorem typeText_written {tokens : List Token} (typeable : Typeable tokens) :
    let text := written tokens
    let typed := (Line.empty.typeText text).1
    typed.text = text ∧ typed.cursor = text.length ∧
      ∃ outcome, (Line.empty.insert text).commit.2 = some outcome ∧
        Line.empty.typeText (text ++ ['=']) = ((Line.empty.insert text).commit.1, [outcome]) := by
  intro text typed
  obtain ⟨some_text, types⟩ := typeable.typeText
  have typed_eq : typed = Line.empty.insert text := congrArg Prod.fst types
  have holds := Line.text_insert_empty text
  refine ⟨by rw [typed_eq, holds], by simp [typed_eq, Line.insert, Line.empty, Line.cursor], ?_⟩
  have commits : ∃ outcome, (Line.empty.insert text).commit.2 = some outcome := by
    rw [Line.commit, if_neg (by rwa [holds])]
    exact ⟨_, rfl⟩
  obtain ⟨outcome, committed⟩ := commits
  refine ⟨outcome, committed, ?_⟩
  rw [Line.typeText_append, types, Line.typeText_commit, committed]
  rfl

/-- Signs behind an opening, a plus and a power, a literal that ends in its point, and roots. -/
theorem typeText_written_rooted_power :
    let tokens : List Token :=
      [.operator .root, .opening, .literal "-1.5".toList, .operator (.binary .add),
        .literal "-2.".toList, .closing, .operator (.binary .pow), .operator .root,
        .literal "-30".toList, .operator (.binary .sub), .literal "4".toList]
    let text := "√(-1.5+-2.)^√-30-4".toList
    Typeable tokens ∧ written tokens = text ∧ (Line.empty.typeText text).1.text = text ∧
      (Line.empty.typeText text).1.cursor = 18 ∧
      ∃ outcome, (Line.empty.insert text).commit.2 = some outcome ∧
        Line.empty.typeText (text ++ ['=']) = ((Line.empty.insert text).commit.1, [outcome]) := by
  intro tokens text
  have literal (text : List Char) : Derives .power [.literal text] (.literal text) :=
    .prefixed (.primary (.literal text))
  have sum : Derives .sum [.literal "-1.5".toList, .operator (.binary .add),
      .literal "-2.".toList] _ :=
    .sum (.inl rfl) (.alone (.single (literal _))) (.single (literal _))
  have exponent : Derives .power [.operator .root, .literal "-30".toList] _ :=
    .prefixed (.root (.primary (.literal _)))
  have derives : Derives .sum tokens _ :=
    .sum (.inr rfl) (.alone (.single (.power (.root (.primary (.group sum))) exponent)))
      (.single (literal _))
  have digit (c : Char) (digit : c.isDigit = true) : AllDigits [c] := by
    simp [AllDigits, digit]
  have thirty : AllDigits ['3', '0'] := (digit '3' rfl).append (digit '0' rfl)
  have literals : ∀ token ∈ tokens, token.Plain := by
    simp only [tokens, List.forall_mem_cons]
    refine ⟨.operator _, .opening, .signed (.pointed (digit '1' rfl) (by simp) (digit '5' rfl)),
      .operator _, .signed (.pointed (digit '2' rfl) (by simp) (by simp [AllDigits])), .closing,
      .operator _, .operator _, .signed (.whole thirty (by simp)), .operator _,
      .unsigned (.whole (digit '4' rfl) (by simp)), by simp⟩
  have typeable : Typeable tokens := ⟨⟨_, derives⟩, literals, by unfold SignsApart; decide⟩
  have text_eq : written tokens = text := by decide
  have typed := typeText_written typeable
  rw [text_eq] at typed
  exact ⟨typeable, text_eq, typed⟩

end DeskCalculator
