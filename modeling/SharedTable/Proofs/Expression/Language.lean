import Mathlib.Data.String.Basic
import SharedTable.Condition.Expression
import SharedTable.Proofs.Except

/-!
The language of expressions, read from their texts. A text is cut into words, the words are tokens, and
the tokens are clauses with AND between them. What placeholders stand for plays no part here.
-/

set_option autoImplicit false

namespace SharedTable

namespace Expression

inductive Token where
  | name (text : String)
  | value (text : String)
  | symbol (text : String)
  | and
  | between
  | beginsWith
  | opening
  | closing
  | comma
  deriving DecidableEq, Repr

def isMark (c : Char) : Bool := c = '(' || c = ')' || c = ','

def isWordChar (c : Char) : Bool := c != ' ' && !isMark c

def ended (word : List Char) : List (List Char) := if word = [] then [] else [word]

/-- The words and marks of a text behind a word that has begun. Blanks only end words. -/
def pieces (word : List Char) : List Char → List (List Char)
  | [] => ended word
  | c :: rest =>
    if isWordChar c then pieces (word ++ [c]) rest
    else if c = ' ' then ended word ++ pieces [] rest
    else ended word ++ [c] :: pieces [] rest

def symbols : List String := ["=", "<>", ">", ">=", "<", "<="]

def keywords : List (String × Token) :=
  [("AND", .and), ("BETWEEN", .between), ("begins_with", .beginsWith), ("(", .opening),
    (")", .closing), (",", .comma)] ++ symbols.map fun symbol => (symbol, .symbol symbol)

def Token.ofPiece? : List Char → Option Token
  | '#' :: rest => some (.name (String.ofList ('#' :: rest)))
  | ':' :: rest => some (.value (String.ofList (':' :: rest)))
  | piece => keywords.lookup (String.ofList piece)

def tokens? (text : String) : Option (List Token) := (pieces [] text.toList).mapM Token.ofPiece?

/-- Clauses with AND between them; the AND inside a range is part of its clause. -/
def clauses? : List Token → Option (List ExpressionClause)
  | [.name name, .symbol symbol, .value value] => some [.relation name symbol value]
  | .name name :: .symbol symbol :: .value value :: .and :: rest =>
    (clauses? rest).map (.relation name symbol value :: ·)
  | [.beginsWith, .opening, .name name, .comma, .value value, .closing] =>
    some [.beginsWith name value]
  | .beginsWith :: .opening :: .name name :: .comma :: .value value :: .closing :: .and :: rest =>
    (clauses? rest).map (.beginsWith name value :: ·)
  | [.name name, .between, .value low, .and, .value high] => some [.between name low high]
  | .name name :: .between :: .value low :: .and :: .value high :: .and :: rest =>
    (clauses? rest).map (.between name low high :: ·)
  | _ => none

def parse? (text : String) : Option (List ExpressionClause) := (tokens? text).bind clauses?

def Token.name? : Token → Option String
  | .name text => some text
  | _ => none

def Token.value? : Token → Option String
  | .value text => some text
  | _ => none

def namesIn (text : String) : List String := ((tokens? text).getD []).filterMap Token.name?

def valuesIn (text : String) : List String := ((tokens? text).getD []).filterMap Token.value?

theorem pieces_append {word : List Char} (plain : word.all isWordChar) (begun rest : List Char) :
    pieces begun (word ++ rest) = pieces (begun ++ word) rest := by
  induction word generalizing begun with
  | nil => rw [List.nil_append, List.append_nil]
  | cons c word ih =>
    rw [List.all_cons, Bool.and_eq_true] at plain
    rw [List.cons_append, pieces, if_pos plain.1, ih plain.2, List.append_assoc]
    rfl

theorem pieces_word {word rest : List Char} (some : word ≠ []) (plain : word.all isWordChar)
    (ends : ∀ c ∈ rest.head?, isWordChar c = false) :
    pieces [] (word ++ rest) = word :: pieces [] rest := by
  have whole : ended word = [word] := if_neg some
  rw [pieces_append plain, List.nil_append]
  cases rest with
  | nil => exact whole
  | cons c rest =>
    have apart : ¬ isWordChar c := by simp [ends c rfl]
    rw [pieces, pieces, if_neg apart, if_neg apart, whole]
    split <;> rfl

theorem pieces_blank (rest : List Char) : pieces [] (' ' :: rest) = pieces [] rest := rfl

theorem pieces_mark {c : Char} (mark : isMark c) (rest : List Char) :
    pieces [] (c :: rest) = [c] :: pieces [] rest := by
  have apart : ¬ isWordChar c := by simp [isWordChar, mark]
  have other : c ≠ ' ' := by
    intro same
    subst same
    cases mark
  rw [pieces, if_neg apart, if_neg other]
  rfl

structure IsPlaceholder (mark : Char) (text : String) : Prop where
  marked : text.toList.head? = some mark
  plain : text.toList.all isWordChar

theorem IsPlaceholder.of_toList {mark : Char} {text : String} {rest : List Char}
    (same : text.toList = mark :: rest) (plain : (mark :: rest).all isWordChar) :
    IsPlaceholder mark text := ⟨by rw [same]; rfl, same ▸ plain⟩

namespace Token

def written : Token → String
  | .name text => text
  | .value text => text
  | .symbol text => text
  | .and => "AND"
  | .between => "BETWEEN"
  | .beginsWith => "begins_with"
  | .opening => "("
  | .closing => ")"
  | .comma => ","

def WellFormed : Token → Prop
  | .name text => IsPlaceholder '#' text
  | .value text => IsPlaceholder ':' text
  | .symbol text => text ∈ symbols
  | _ => True

theorem ofPiece?_written {token : Token} (wellFormed : token.WellFormed) :
    ofPiece? token.written.toList = some token := by
  have eta {mark : Char} {text : String} (marked : text.toList.head? = some mark) :
      ∃ rest, text.toList = mark :: rest ∧ String.ofList (mark :: rest) = text := by
    obtain ⟨rest, same⟩ := List.head?_eq_some_iff.mp marked
    exact ⟨rest, same, same ▸ String.ofList_toList⟩
  cases token with
  | name text =>
    obtain ⟨rest, same, back⟩ := eta wellFormed.marked
    rw [written, same, ofPiece?, back]
  | value text =>
    obtain ⟨rest, same, back⟩ := eta wellFormed.marked
    rw [written, same, ofPiece?, back]
  | symbol text =>
    have read : ∀ symbol ∈ symbols, ofPiece? symbol.toList = some (.symbol symbol) := by decide
    exact read text wellFormed
  | and => decide
  | between => decide
  | beginsWith => decide
  | opening => decide
  | closing => decide
  | comma => decide

def isWord : Token → Bool
  | .opening => false
  | .closing => false
  | .comma => false
  | _ => true

theorem isWordChar_written {token : Token} (wellFormed : token.WellFormed) (word : token.isWord) :
    token.written.toList ≠ [] ∧ token.written.toList.all isWordChar := by
  have placeholder {mark : Char} {text : String} (marked : IsPlaceholder mark text) :
      text.toList ≠ [] ∧ text.toList.all isWordChar := by
    refine ⟨fun nothing => ?_, marked.plain⟩
    have head := marked.marked
    rw [nothing] at head
    cases head
  cases token with
  | name text => exact placeholder wellFormed
  | value text => exact placeholder wellFormed
  | symbol text =>
    have plain : ∀ symbol ∈ symbols, symbol.toList ≠ [] ∧ symbol.toList.all isWordChar := by decide
    exact plain text wellFormed
  | and => decide
  | between => decide
  | beginsWith => decide
  | opening => cases word
  | closing => cases word
  | comma => cases word

theorem pieces_written {token : Token} (wellFormed : token.WellFormed) (word : token.isWord)
    {rest : List Char} (ends : ∀ c ∈ rest.head?, isWordChar c = false) :
    pieces [] (token.written.toList ++ rest) = token.written.toList :: pieces [] rest :=
  pieces_word (isWordChar_written wellFormed word).1 (isWordChar_written wellFormed word).2 ends

theorem pieces_written_blank {token : Token} (wellFormed : token.WellFormed) (word : token.isWord)
    (rest : List Char) :
    pieces [] (token.written.toList ++ ' ' :: rest) = token.written.toList :: pieces [] rest := by
  have ends : ∀ c ∈ (' ' :: rest).head?, isWordChar c = false := by
    intro c member
    cases member
    rfl
  rw [pieces_written wellFormed word ends, pieces_blank]

theorem pieces_written_mark {token : Token} (wellFormed : token.WellFormed) (word : token.isWord)
    {c : Char} (mark : isMark c) (rest : List Char) :
    pieces [] (token.written.toList ++ c :: rest) =
      token.written.toList :: [c] :: pieces [] rest := by
  have ends : ∀ first ∈ (c :: rest).head?, isWordChar first = false := by
    intro first member
    cases member
    simp [isWordChar, mark]
  rw [pieces_written wellFormed word ends, pieces_mark mark]

end Token

end Expression

namespace ExpressionClause

open Expression

def name : ExpressionClause → String
  | .relation name _ _ => name
  | .beginsWith name _ => name
  | .between name _ _ => name

def values : ExpressionClause → List String
  | .relation _ _ value => [value]
  | .beginsWith _ value => [value]
  | .between _ low high => [low, high]

def tokens : ExpressionClause → List Token
  | .relation name symbol value => [.name name, .symbol symbol, .value value]
  | .beginsWith name value => [.beginsWith, .opening, .name name, .comma, .value value, .closing]
  | .between name low high => [.name name, .between, .value low, .and, .value high]

def WellFormed (clause : ExpressionClause) : Prop := ∀ token ∈ clause.tokens, token.WellFormed

theorem pieces_text {clause : ExpressionClause} (wellFormed : clause.WellFormed) {rest : List Char}
    (ends : ∀ c ∈ rest.head?, isWordChar c = false) :
    pieces [] (clause.text.toList ++ rest) =
      clause.tokens.map (fun token => token.written.toList) ++ pieces [] rest := by
  cases clause with
  | relation name symbol value =>
    have spelled : (relation name symbol value).text.toList ++ rest =
        (Token.name name).written.toList ++ ' ' :: ((Token.symbol symbol).written.toList ++
          ' ' :: ((Token.value value).written.toList ++ rest)) := by
      simp [text, Token.written]
    simp only [WellFormed, tokens, List.forall_mem_cons] at wellFormed
    obtain ⟨first, second, third, -⟩ := wellFormed
    rw [spelled, Token.pieces_written_blank first rfl, Token.pieces_written_blank second rfl,
      Token.pieces_written third rfl ends]
    rfl
  | beginsWith name value =>
    have spelled : (beginsWith name value).text.toList ++ rest =
        Token.beginsWith.written.toList ++ '(' :: ((Token.name name).written.toList ++
          ',' :: ' ' :: ((Token.value value).written.toList ++ ')' :: rest)) := by
      simp [text, Token.written]
    simp only [WellFormed, tokens, List.forall_mem_cons] at wellFormed
    obtain ⟨word, -, first, -, second, -⟩ := wellFormed
    rw [spelled, Token.pieces_written_mark word rfl rfl, Token.pieces_written_mark first rfl rfl,
      pieces_blank, Token.pieces_written_mark second rfl rfl]
    rfl
  | between name low high =>
    have spelled : (between name low high).text.toList ++ rest =
        (Token.name name).written.toList ++ ' ' :: (Token.between.written.toList ++
          ' ' :: ((Token.value low).written.toList ++ ' ' :: (Token.and.written.toList ++
            ' ' :: ((Token.value high).written.toList ++ rest)))) := by
      simp [text, Token.written]
    simp only [WellFormed, tokens, List.forall_mem_cons] at wellFormed
    obtain ⟨first, second, third, fourth, fifth, -⟩ := wellFormed
    rw [spelled, Token.pieces_written_blank first rfl, Token.pieces_written_blank second rfl,
      Token.pieces_written_blank third rfl, Token.pieces_written_blank fourth rfl,
      Token.pieces_written fifth rfl ends]
    rfl

end ExpressionClause

namespace Expression

open ExpressionClause

def tokensOf : List ExpressionClause → List Token
  | [] => []
  | [clause] => clause.tokens
  | clause :: next :: rest => clause.tokens ++ .and :: tokensOf (next :: rest)

def textOf (clauses : List ExpressionClause) : String :=
  " AND ".intercalate (clauses.map ExpressionClause.text)

theorem pieces_textOf {clauses : List ExpressionClause}
    (wellFormed : ∀ clause ∈ clauses, clause.WellFormed) :
    pieces [] (textOf clauses).toList =
      (tokensOf clauses).map fun token => token.written.toList := by
  induction clauses with
  | nil => rfl
  | cons clause rest ih =>
    obtain ⟨first, others⟩ := List.forall_mem_cons.mp wellFormed
    cases rest with
    | nil =>
      have alone : (textOf [clause]).toList = clause.text.toList ++ [] := by simp [textOf]
      have ends : ∀ c ∈ ([] : List Char).head?, isWordChar c = false := by
        intro c member
        cases member
      rw [alone, pieces_text first ends]
      exact List.append_nil _
    | cons next rest =>
      have spelled : (textOf (clause :: next :: rest)).toList = clause.text.toList ++
          ' ' :: (Token.and.written.toList ++ ' ' :: (textOf (next :: rest)).toList) := by
        have some : (next :: rest).map ExpressionClause.text ≠ [] := List.cons_ne_nil _ _
        rw [textOf, List.map_cons, String.intercalate_cons_of_ne_nil some]
        simp [textOf, Token.written]
      have ends : ∀ c ∈ (' ' :: (Token.and.written.toList ++
          ' ' :: (textOf (next :: rest)).toList)).head?, isWordChar c = false := by
        intro c member
        cases member
        rfl
      rw [spelled, pieces_text first ends, pieces_blank,
        Token.pieces_written_blank (show Token.and.WellFormed from trivial) rfl, ih others, tokensOf, List.map_append]
      rfl

theorem tokens?_textOf {clauses : List ExpressionClause}
    (wellFormed : ∀ clause ∈ clauses, clause.WellFormed) :
    tokens? (textOf clauses) = some (tokensOf clauses) := by
  have all : ∀ token ∈ tokensOf clauses, token.WellFormed := by
    induction clauses with
    | nil => exact fun _ member => nomatch member
    | cons clause rest ih =>
      obtain ⟨first, others⟩ := List.forall_mem_cons.mp wellFormed
      cases rest with
      | nil => exact first
      | cons next rest =>
        exact List.forall_mem_append.mpr ⟨first, List.forall_mem_cons.mpr ⟨trivial, ih others⟩⟩
  rw [tokens?, pieces_textOf wellFormed,
    mapM_map_eq_some fun token member => Token.ofPiece?_written (all token member), List.map_id']

theorem clauses?_tokensOf {clauses : List ExpressionClause} (some : clauses ≠ []) :
    clauses? (tokensOf clauses) = .some clauses := by
  induction clauses with
  | nil => exact absurd rfl some
  | cons clause rest ih =>
    cases rest with
    | nil => cases clause <;> rfl
    | cons next rest =>
      have later := ih (List.cons_ne_nil _ _)
      cases clause <;> simp [tokensOf, tokens, clauses?, later]

theorem parse?_textOf {clauses : List ExpressionClause}
    (wellFormed : ∀ clause ∈ clauses, clause.WellFormed) (some : clauses ≠ []) :
    parse? (textOf clauses) = .some clauses := by
  rw [parse?, tokens?_textOf wellFormed, Option.bind_some, clauses?_tokensOf some]

example : parse? "#pk = :pk AND #sk BETWEEN :sk AND :sk_end" =
    some [.relation "#pk" "=" ":pk", .between "#sk" ":sk" ":sk_end"] := by
  decide

theorem filterMap_tokensOf {α : Type} (read : Token → Option α) (silent : read .and = none)
    (clauses : List ExpressionClause) :
    (tokensOf clauses).filterMap read = clauses.flatMap fun clause => clause.tokens.filterMap read := by
  induction clauses with
  | nil => rfl
  | cons clause rest ih =>
    cases rest with
    | nil => exact (List.append_nil _).symm
    | cons next rest =>
      rw [tokensOf, List.filterMap_append, List.filterMap_cons_none silent, ih]
      rfl

theorem namesIn_textOf {clauses : List ExpressionClause}
    (wellFormed : ∀ clause ∈ clauses, clause.WellFormed) :
    namesIn (textOf clauses) = clauses.map ExpressionClause.name := by
  have each : (fun clause : ExpressionClause => clause.tokens.filterMap Token.name?) =
      fun clause => [clause.name] := by
    funext clause
    cases clause <;> rfl
  rw [namesIn, tokens?_textOf wellFormed, Option.getD_some, filterMap_tokensOf _ rfl, each]
  exact List.map_eq_flatMap.symm

theorem valuesIn_textOf {clauses : List ExpressionClause}
    (wellFormed : ∀ clause ∈ clauses, clause.WellFormed) :
    valuesIn (textOf clauses) = clauses.flatMap ExpressionClause.values := by
  have each : (fun clause : ExpressionClause => clause.tokens.filterMap Token.value?) =
      ExpressionClause.values := by
    funext clause
    cases clause <;> rfl
  rw [valuesIn, tokens?_textOf wellFormed, Option.getD_some, filterMap_tokensOf _ rfl, each]

end Expression

end SharedTable
