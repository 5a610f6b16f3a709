import Almanac.Text.Numeral
import Mathlib.Tactic.SplitIfs

/-! The words and signs that the text of a statement consists of.
A statement is read character by character. Unquoted words are the same in either case, and quoted
ones are as they stand.
-/

namespace Almanac.Sql

/-- A piece of a statement. -/
inductive Token where
  | word (letters : String)
  | quoted (name : String)
  | parameter (number : Nat)
  | sign (signs : String)
  | comma
  | opening
  | closing
  deriving DecidableEq, Repr

/-- The token that is being read, its characters in reverse. -/
inductive Pending where
  | nothing
  | word (letters : List Char)
  | quoted (letters : List Char)
  | parameter (digits : List Char)
  | sign (signs : List Char)

/-- What has been read: the tokens in reverse, and the characters of the next one. -/
structure Scan where
  done : List Token
  pending : Pending

/-- The characters that words consist of. -/
def isWordCharacter (c : Char) : Bool :=
  c.isAlphanum || c = '_'

/-- The characters that comparisons are written with. -/
def isSignCharacter (c : Char) : Bool :=
  c ∈ ['<', '>', '=', '!']

/-- The tokens that a character is by itself, when it separates others. -/
def separator? : Char → Option (List Token)
  | ' ' => some []
  | ',' => some [.comma]
  | '(' => some [.opening]
  | ')' => some [.closing]
  | _ => none

namespace Scan

def start : Scan :=
  ⟨[], .nothing⟩

/-- Ends the pending token. A quoted name must have been ended by its quote. -/
def finish (s : Scan) : Option (List Token) :=
  match s.pending with
  | .nothing => some s.done
  | .word letters => some (.word (.ofList letters.reverse) :: s.done)
  | .quoted _ => none
  | .parameter digits =>
      (Text.natOfDigits? digits.reverse).map fun number => .parameter number :: s.done
  | .sign signs => some (.sign (.ofList signs.reverse) :: s.done)

def begin (done : List Token) (c : Char) : Option Scan :=
  if c = '"' then some ⟨done, .quoted []⟩
  else if c = '$' then some ⟨done, .parameter []⟩
  else if isSignCharacter c then some ⟨done, .sign [c]⟩
  else if c.isAlpha || c = '_' then some ⟨done, .word [c.toLower]⟩
  else none

def extend (s : Scan) (c : Char) : Option Scan :=
  match s.pending with
  | .word letters =>
      if isWordCharacter c then some ⟨s.done, .word (c.toLower :: letters)⟩
      else s.finish.bind fun done => begin done c
  | .parameter digits =>
      if c.isDigit then some ⟨s.done, .parameter (c :: digits)⟩
      else if isWordCharacter c then none
      else s.finish.bind fun done => begin done c
  | .sign signs =>
      if isSignCharacter c then some ⟨s.done, .sign (c :: signs)⟩
      else s.finish.bind fun done => begin done c
  | _ => begin s.done c

def feed (s : Scan) (c : Char) : Option Scan :=
  match s.pending, separator? c with
  | .quoted letters, _ =>
      if c = '"' then some ⟨.quoted (.ofList letters.reverse) :: s.done, .nothing⟩
      else some ⟨s.done, .quoted (c :: letters)⟩
  | _, some tokens => s.finish.map fun done => ⟨tokens.reverse ++ done, .nothing⟩
  | _, none => s.extend c

/-- The same after further tokens. -/
def after (done : List Token) (s : Scan) : Scan :=
  ⟨s.done ++ done, s.pending⟩

theorem finish_after (done : List Token) (s : Scan)
    : (s.after done).finish = s.finish.map (· ++ done) := by
  obtain ⟨read, pending⟩ := s
  cases pending with
  | parameter digits => simp [finish, after, Option.map_map, Function.comp_def]
  | _ => simp [finish, after]

theorem begin_after (done read : List Token) (c : Char)
    : begin (read ++ done) c = (begin read c).map (after done) := by
  simp only [begin]
  split_ifs <;> rfl

/-- Tokens before do not change what a character adds, by cases on the pending token. -/
theorem extend_after (done : List Token) (s : Scan) (c : Char)
    : (s.after done).extend c = (s.extend c).map (after done) := by
  have ended : ((s.after done).finish.bind fun read => begin read c)
      = (s.finish.bind fun read => begin read c).map (after done) := by
    rw [finish_after]
    cases s.finish with
    | none => rfl
    | some read => exact begin_after done read c
  obtain ⟨read, pending⟩ := s
  cases pending with
  | nothing => exact begin_after done read c
  | quoted letters => exact begin_after done read c
  | word letters =>
      simp only [extend, after] at ended ⊢
      split_ifs
      · rfl
      · exact ended
  | parameter digits =>
      simp only [extend, after] at ended ⊢
      split_ifs
      · rfl
      · rfl
      · exact ended
  | sign signs =>
      simp only [extend, after] at ended ⊢
      split_ifs
      · rfl
      · exact ended

theorem feed_after (done : List Token) (s : Scan) (c : Char)
    : (s.after done).feed c = (s.feed c).map (after done) := by
  cases pending : s.pending with
  | quoted letters =>
      simp only [feed, after, pending]
      split_ifs <;> rfl
  | _ =>
      cases separates : separator? c with
      | none => simpa [feed, after, pending, separates] using extend_after done s c
      | some tokens =>
          have finished := finish_after done s
          simp only [feed, after, pending, separates] at finished ⊢
          rw [finished]
          cases s.finish <;> simp [after]

/-- Tokens before do not change what a text means, by induction on the text. -/
theorem foldlM_feed_after (done : List Token) (s : Scan) (text : List Char)
    : text.foldlM feed (s.after done) = (text.foldlM feed s).map (after done) := by
  induction text generalizing s with
  | nil => rfl
  | cons c text ih =>
      rw [List.foldlM_cons, List.foldlM_cons, feed_after]
      cases s.feed c with
      | none => rfl
      | some s => exact ih s

end Scan

/-- The tokens of a statement. -/
def tokens? (text : List Char) : Option (List Token) :=
  (text.foldlM Scan.feed .start).bind fun s => s.finish.map List.reverse

/-- After any tokens, a piece of text is read as the given ones. -/
def ReadAs (text : List Char) (tokens : List Token) : Prop :=
  ∀ done, ∃ s, text.foldlM Scan.feed ⟨done, .nothing⟩ = some s
    ∧ s.finish = some (tokens.reverse ++ done)

namespace ReadAs

theorem tokens?_eq {text : List Char} {tokens : List Token} (read : ReadAs text tokens)
    : tokens? text = some tokens := by
  obtain ⟨s, fed, finished⟩ := read []
  have fed : text.foldlM Scan.feed .start = some s := fed
  simp [tokens?, fed, finished]

/-- What a text is read as does not depend on what was read before. -/
theorem of_tokens? {text : List Char} {tokens : List Token} (read : tokens? text = some tokens)
    : ReadAs text tokens := by
  intro done
  simp only [tokens?, Option.bind_eq_some_iff, Option.map_eq_some_iff] at read
  obtain ⟨s, fed, read, finished, rfl⟩ := read
  refine ⟨s.after done, ?_, ?_⟩
  · have := Scan.foldlM_feed_after done Scan.start text
    rw [fed] at this
    exact this
  · rw [Scan.finish_after, finished]
    simp

theorem nil : ReadAs [] [] :=
  fun done => ⟨⟨done, .nothing⟩, rfl, rfl⟩

/-- A separator ends the token before it, so what stands on both sides is read by itself. -/
theorem separated {left right : List Char} {before after between : List Token} {c : Char}
    (separates : separator? c = some between) (read : ReadAs left before)
    (read' : ReadAs right after)
    : ReadAs (left ++ c :: right) (before ++ between ++ after) := by
  intro done
  obtain ⟨s, fed, finished⟩ := read done
  obtain ⟨s', fed', finished'⟩ := read' (between.reverse ++ (before.reverse ++ done))
  refine ⟨s', ?_, ?_⟩
  · have ended : s.feed c = some ⟨between.reverse ++ (before.reverse ++ done), .nothing⟩ := by
      -- Only a quoted name would take the separator as its own, and that could not end here.
      cases pending : s.pending with
      | quoted letters => simp [Scan.finish, pending] at finished
      | _ => simp [Scan.feed, pending, separates, finished]
    rw [List.foldlM_append, fed, Option.bind_eq_bind, Option.bind_some, List.foldlM_cons, ended]
    exact fed'
  · rw [finished']
    simp

theorem spaced {left right : List Char} {before after : List Token} (read : ReadAs left before)
    (read' : ReadAs right after)
    : ReadAs (left ++ ' ' :: right) (before ++ after) := by
  simpa using separated (c := ' ') rfl read read'

theorem listed {left right : List Char} {before after : List Token} (read : ReadAs left before)
    (read' : ReadAs right after)
    : ReadAs (left ++ ',' :: right) (before ++ .comma :: after) := by
  simpa using separated (c := ',') rfl read read'

/-- What stands in front of a parenthesis is read by itself, and so is what follows it. -/
theorem opened {left right : List Char} {before after : List Token} (read : ReadAs left before)
    (read' : ReadAs right after)
    : ReadAs (left ++ '(' :: right) (before ++ .opening :: after) := by
  simpa using separated (c := '(') rfl read read'

theorem closed {text : List Char} {tokens : List Token} (read : ReadAs text tokens)
    : ReadAs (text ++ [')']) (tokens ++ [.closing]) := by
  simpa using separated (c := ')') rfl read nil

end ReadAs

theorem separator?_of_isDigit {c : Char} (digit : c.isDigit) : separator? c = none := by
  unfold separator?
  split <;> first | rfl | simp at digit

/-- Digits extend the number of a parameter, by induction on them. -/
theorem Scan.feed_digits (done : List Token) (read digits : List Char)
    (all : ∀ c ∈ digits, c.isDigit)
    : digits.foldlM Scan.feed ⟨done, .parameter read⟩
      = some ⟨done, .parameter (digits.reverse ++ read)⟩ := by
  induction digits generalizing read with
  | nil => rfl
  | cons c digits ih =>
      have digit := all c List.mem_cons_self
      have fed : Scan.feed ⟨done, .parameter read⟩ c = some ⟨done, .parameter (c :: read)⟩ := by
        simp [feed, separator?_of_isDigit digit, extend, digit]
      rw [List.foldlM_cons, fed, Option.bind_eq_bind, Option.bind_some,
        ih _ fun c mem => all c (List.mem_cons_of_mem _ mem)]
      simp

/-- A numbered parameter is read with its number. -/
theorem ReadAs.parameter (n : Nat) : ReadAs ('$' :: (toString n).toList) [.parameter n] := by
  intro done
  have digits : (toString n).toList = Nat.toDigits 10 n := Nat.toList_repr
  have all : ∀ c ∈ Nat.toDigits 10 n, c.isDigit :=
    fun c => Nat.isDigit_of_mem_toDigits (by decide) (by decide)
  refine ⟨⟨done, .parameter ((Nat.toDigits 10 n).reverse ++ [])⟩, ?_, ?_⟩
  · rw [digits]
    exact Scan.feed_digits done [] _ all
  · have number : Text.natOfDigits? (Nat.toDigits 10 n) = some n := by
      have some_digit : Nat.toDigits 10 n ≠ [] := Nat.toDigits_ne_nil
      rw [Text.natOfDigits?, if_pos (by simpa [some_digit] using all),
        Nat.ofDigitChars_ten_toDigits]
    simp [Scan.finish, number]

end Almanac.Sql
