import Mathlib.Data.List.Forall2
import Mathlib.Tactic.Common

/-!
# How a POSIX shell reads a command line

The token recognition of a POSIX shell, byte by byte: blanks delimit, operators are recognised
greedily, a backslash and the two kinds of quotes take the meaning from the bytes they cover, a `#`
that begins a token opens a comment, digits directly before a redirection are an IO number. `lex` is
the reading of a whole line.

The reading is one of *inert* lines. What a shell would go on to expand – an unquoted parameter,
command substitution, pathname pattern or leading tilde, a parameter or a substitution inside double
quotes – is not a token but the error `LexError.expansion`; a here-document, an unterminated quote
and a NUL byte are errors as well. So a line that reads to a list of tokens *is* that list, with the
quotes removed, and nothing in it is left for the shell to interpret. A word records whether any
part of it was quoted, for such a word is never a reserved word, an assignment or an alias.

The automaton reads a line from left to right (`run_append`), and the rules below say what it does
on a text that is quoted (`readsWord_quoteWith`), on one that needs no quotes (`Plain.readsWord`),
and on stretches with blanks between them (`Reads.append`, `Reads.lex`). There are no other ways: a
word that was not quoted needs no quotes (`plain_of_lex`), and a text between quotes that is read as
itself has none in it (`not_mem_of_quoteWith`).
-/

namespace Containers.Shell

open List

/-! ### Tokens -/

/-- Why a line has no reading as inert tokens. -/
inductive LexError where
  | nul
  | expansion
  | hereDocument
  | unterminated
  deriving DecidableEq, Repr

/-- The tokens of a line. -/
inductive Token where
  | word (text : List UInt8) (quoted : Bool)
  | ioNumber (text : List UInt8)
  | operator (text : List UInt8)
  | newline
  deriving DecidableEq, Repr

/-- A word being read: its text so far, without the quotes, and whether any of it was
quoted. -/
structure Word where
  text : List UInt8 := []
  quoted : Bool := false
  deriving DecidableEq, Repr

def Word.token (w : Word) : Token := .word w.text w.quoted

/-- What an unquoted byte means to a shell. -/
inductive Meaning where
  | backslash
  | singleQuote
  | doubleQuote
  | expansion
  | tilde
  | hash
  | blank
  | newline
  | operator
  | ordinary
  deriving DecidableEq, Repr

def meaning (b : UInt8) : Meaning :=
  if b = 92 then .backslash
  else if b = 39 then .singleQuote
  else if b = 34 then .doubleQuote
  -- dollar, backquote, star, question mark, opening bracket
  else if b = 36 ∨ b = 96 ∨ b = 42 ∨ b = 63 ∨ b = 91 then .expansion
  else if b = 126 then .tilde
  else if b = 35 then .hash
  else if b = 32 ∨ b = 9 then .blank
  else if b = 10 then .newline
  -- ampersand, bar, semicolon, less, greater, the two parentheses
  else if b = 38 ∨ b = 124 ∨ b = 59 ∨ b = 60 ∨ b = 62 ∨ b = 40 ∨ b = 41 then .operator
  else .ordinary

def longOperators : List (List UInt8) :=
  [[38, 38], [124, 124], [59, 59], [60, 60], [60, 60, 45], [60, 38], [60, 62], [62, 62],
    [62, 38], [62, 124]]

/-! ### The automaton -/

/-- Where a reading stands. -/
inductive Mode where
  | plain
  | comment
  | single
  | double
  | escape
  | doubleEscape
  | operator (op : List UInt8)
  deriving DecidableEq, Repr

/-- The state of a reading: its mode, the word in progress if there is one, and the tokens
delimited so far. -/
structure State where
  mode : Mode := .plain
  word : Option Word := none
  tokens : List Token := []

namespace State

/-- The next byte of the word in progress; one is begun if there is none. -/
def push (st : State) (b : UInt8) : State :=
  { st with word := some { st.word.getD {} with text := (st.word.getD {}).text ++ [b] } }

/-- The word in progress is a quoted one; one is begun if there is none. -/
def quote (st : State) : State :=
  { st with word := some { st.word.getD {} with quoted := true } }

def delimit (st : State) : State :=
  match st.word with
  | none => st
  | some w => { st with word := none, tokens := st.tokens ++ [w.token] }

/-- The word in progress ends at an operator: unquoted digits before a redirection are the
number of a descriptor. -/
def delimitAt (st : State) (b : UInt8) : State :=
  match st.word with
  | none => st
  | some w =>
    if (b = 60 ∨ b = 62) ∧ w.quoted = false ∧ w.text.all (fun d => 48 ≤ d ∧ d ≤ 57) then
      { st with word := none, tokens := st.tokens ++ [.ioNumber w.text] }
    else st.delimit

def readPlain (st : State) (b : UInt8) : Except LexError State :=
  match meaning b with
  | .backslash => .ok { st with mode := .escape }
  | .singleQuote => .ok { st.quote with mode := .single }
  | .doubleQuote => .ok { st.quote with mode := .double }
  | .expansion => .error .expansion
  | .tilde => if st.word.isNone then .error .expansion else .ok (st.push b)
  | .hash => if st.word.isNone then .ok { st with mode := .comment } else .ok (st.push b)
  | .blank => .ok st.delimit
  | .newline => .ok { st.delimit with tokens := st.delimit.tokens ++ [.newline] }
  | .operator => .ok { st.delimitAt b with mode := .operator [b] }
  | .ordinary => .ok (st.push b)

def emit (st : State) (op : List UInt8) : Except LexError State :=
  if op = [60, 60] ∨ op = [60, 60, 45] then .error .hereDocument
  else .ok { st with mode := .plain, tokens := st.tokens ++ [.operator op] }

/-- **One byte of the line.** -/
def step (st : State) (b : UInt8) : Except LexError State :=
  if b = 0 then .error .nul
  else match st.mode with
    | .plain => st.readPlain b
    | .comment => if b = 10 then ({ st with mode := .plain } : State).readPlain b else .ok st
    | .single => if b = 39 then .ok { st with mode := .plain } else .ok (st.push b)
    | .double =>
      if b = 34 then .ok { st with mode := .plain }
      else if b = 92 then .ok { st with mode := .doubleEscape }
      else if b = 36 ∨ b = 96 then .error .expansion
      else .ok (st.push b)
    -- a backslash-newline is a line continuation, and vanishes
    | .escape =>
      if b = 10 then .ok { st with mode := .plain }
      else .ok { st.quote.push b with mode := .plain }
    | .doubleEscape =>
      if b = 10 then .ok { st with mode := .double }
      else if b = 36 ∨ b = 96 ∨ b = 34 ∨ b = 92 then .ok { st.push b with mode := .double }
      else .ok { (st.push 92).push b with mode := .double }
    | .operator op =>
      if op ++ [b] ∈ longOperators then .ok { st with mode := .operator (op ++ [b]) }
      else do (← st.emit op).readPlain b

def finish (st : State) : Except LexError (List Token) :=
  match st.mode with
  | .plain | .comment => .ok st.delimit.tokens
  | .operator op => do return (← st.emit op).tokens
  | .single | .double | .escape | .doubleEscape => .error .unterminated

end State

def run (st : State) (input : List UInt8) : Except LexError State := input.foldlM State.step st

/-- **The reading of a line.** -/
def lex (input : List UInt8) : Except LexError (List Token) := do (← run {} input).finish

variable {s : List UInt8} {codes : List (List UInt8)} {st st' : State} {b : UInt8}

/-! ### Reading from left to right -/

@[simp] theorem run_nil (st : State) : run st [] = .ok st := rfl

theorem run_cons (h : st.step b = .ok st') (input : List UInt8) :
    run st (b :: input) = run st' input := by
  rw [run, foldlM_cons, h]
  rfl

theorem run_append {first : List UInt8} (h : run st first = .ok st') (second : List UInt8) :
    run st (first ++ second) = run st' second := by
  rw [run, foldlM_append]
  rw [run] at h
  rw [h]
  rfl

theorem lex_of_run {input : List UInt8} (h : run {} input = .ok st) : lex input = st.finish := by
  rw [lex, h]
  rfl

/-! ### Quoted text -/

/-- A reading inside single quotes, the word so far being `w`. -/
def inSingle (ts : List Token) (w : List UInt8) : State := ⟨.single, some ⟨w, true⟩, ts⟩

/-- A reading outside all quotes, at the end of a word that is not delimited yet. -/
def atWord (ts : List Token) (w : Word) : State := ⟨.plain, some w, ts⟩

/-- `code` stands for `text` between single quotes: reading it there appends `text` to the
word and leaves the quotes open. -/
def Encodes (code text : List UInt8) : Prop :=
  ∀ ts w, run (inSingle ts w) code = .ok (inSingle ts (w ++ text))

theorem encodes_nil : Encodes [] [] := by
  intro ts w
  rw [append_nil, run_nil]

theorem Encodes.append {c₁ t₁ c₂ t₂ : List UInt8} (h₁ : Encodes c₁ t₁) (h₂ : Encodes c₂ t₂) :
    Encodes (c₁ ++ c₂) (t₁ ++ t₂) := by
  intro ts w
  rw [run_append (h₁ ts w), h₂ ts, append_assoc]

theorem Encodes.flatMap {code text : UInt8 → List UInt8} (h : ∀ b ∈ s, Encodes (code b) (text b)) :
    Encodes (s.flatMap code) (s.flatMap text) := by
  induction s with
  | nil => exact encodes_nil
  | cons b s ih =>
    exact (h b mem_cons_self).append (ih fun b' hb' => h b' (mem_cons_of_mem b hb'))

theorem encodes_self (h : ∀ b ∈ s, b ≠ 0 ∧ b ≠ 39) : Encodes s s := by
  induction s with
  | nil => exact encodes_nil
  | cons b s ih =>
    obtain ⟨h0, h39⟩ := h b mem_cons_self
    intro ts w
    have hstep : (inSingle ts w).step b = .ok (inSingle ts (w ++ [b])) := by
      simp [State.step, inSingle, State.push, h0, h39]
    rw [run_cons hstep, ih (fun b' hb' => h b' (mem_cons_of_mem b hb')) ts,
      append_assoc, singleton_append]

/-- **The escaped quote**: close, backslash, quote, reopen. -/
def escapedQuote : List UInt8 := [39, 92, 39, 39]

theorem encodes_escapedQuote : Encodes escapedQuote [39] := fun _ _ => rfl

/-- `code` read between tokens is the word `w`, which is still open at its end. -/
def ReadsWord (code : List UInt8) (w : Word) : Prop :=
  ∀ ts, run ⟨.plain, none, ts⟩ code = .ok (atWord ts w)

def quoteWith (code : List UInt8) : List UInt8 := [39] ++ code ++ [39]

/-- **Quoted text is one word**, and the word is the text it encodes. -/
theorem readsWord_quoteWith {code text : List UInt8} (h : Encodes code text) :
    ReadsWord (quoteWith code) ⟨text, true⟩ := by
  intro ts
  have hopen : run ⟨.plain, none, ts⟩ [39] = .ok (inSingle ts []) := rfl
  rw [quoteWith, append_assoc, run_append hopen, run_append (h ts [])]
  rfl

/-! ### Unquoted text -/

/-- A byte that goes on a word: it has no meaning of its own, or none there. -/
def goesOn (b : UInt8) : Bool :=
  b ≠ 0 ∧ (meaning b = .ordinary ∨ meaning b = .tilde ∨ meaning b = .hash)

def begins (b : UInt8) : Bool := b ≠ 0 ∧ meaning b = .ordinary

/-- **A text that needs no quotes.** -/
structure Plain (s : List UInt8) : Prop where
  head : s.head?.any begins = true
  all : s.all goesOn = true

instance : Decidable (Plain s) :=
  decidable_of_iff (s.head?.any begins = true ∧ s.all goesOn = true)
    ⟨fun h => ⟨h.1, h.2⟩, fun h => ⟨h.1, h.2⟩⟩

theorem goesOn_of_begins (h : begins b) : goesOn b := by
  simp only [begins, goesOn, decide_eq_true_eq] at h ⊢
  exact ⟨h.1, .inl h.2⟩

theorem Plain.of_forall (hs : s ≠ []) (h : ∀ b ∈ s, begins b) : Plain s := by
  refine ⟨?_, all_eq_true.mpr fun b hb => goesOn_of_begins (h b hb)⟩
  obtain ⟨b, s, rfl⟩ := exists_cons_of_ne_nil hs
  exact h b mem_cons_self

theorem Plain.append {t : List UInt8} (hs : Plain s) (ht : t.all goesOn) : Plain (s ++ t) := by
  refine ⟨?_, by rw [all_append, hs.all, ht, Bool.and_self]⟩
  have hhead := hs.head
  rcases s with _ | ⟨b, s⟩
  · cases hhead
  · exact hhead

theorem run_goesOn (h : ∀ b ∈ s, goesOn b) (ts : List Token) (w : Word) :
    run (atWord ts w) s = .ok (atWord ts { w with text := w.text ++ s }) := by
  induction s generalizing w with
  | nil => simp
  | cons b s ih =>
    have hb := h b mem_cons_self
    simp only [goesOn, decide_eq_true_eq] at hb
    have hstep : (atWord ts w).step b = .ok (atWord ts { w with text := w.text ++ [b] }) := by
      rcases hb.2 with hb' | hb' | hb' <;>
        simp [State.step, atWord, State.readPlain, State.push, hb.1, hb']
    rw [run_cons hstep, ih fun b' hb' => h b' (mem_cons_of_mem b hb')]
    simp

/-- **A text that needs no quotes is one word** as it stands. -/
theorem Plain.readsWord (h : Plain s) : ReadsWord s ⟨s, false⟩ := by
  intro ts
  obtain ⟨hhead, hall⟩ := h
  rcases s with _ | ⟨b, s⟩
  · cases hhead
  have hb : b ≠ 0 ∧ meaning b = .ordinary := of_decide_eq_true hhead
  have hstep : State.step ⟨.plain, none, ts⟩ b = .ok (atWord ts ⟨[b], false⟩) := by
    simp [State.step, atWord, State.readPlain, State.push, hb.1, hb.2]
  rw [run_cons hstep, run_goesOn fun b' hb' => all_eq_true.mp hall b' (mem_cons_of_mem b hb')]
  simp

/-! ### Stretches between blanks -/

/-- **A stretch of a line**: read between tokens, with a blank after it, it is these tokens. -/
def Reads (code : List UInt8) (ts : List Token) : Prop :=
  ∀ ts₀, run ⟨.plain, none, ts₀⟩ (code ++ [32]) = .ok ⟨.plain, none, ts₀ ++ ts⟩

variable {code code' : List UInt8} {ts ts' : List Token} {w : Word}

theorem ReadsWord.reads (h : ReadsWord code w) : Reads code [w.token] := by
  intro ts₀
  rw [run_append (h ts₀)]
  rfl

/-- **Stretches in a row**, with a blank between them. -/
theorem Reads.append (h : Reads code ts) (h' : Reads code' ts') :
    Reads (code ++ 32 :: code') (ts ++ ts') := by
  intro ts₀
  have hsplit : code ++ 32 :: code' ++ [32] = code ++ [32] ++ (code' ++ [32]) := by simp
  rw [hsplit, run_append (h ts₀), h', append_assoc]

def spaced (codes : List (List UInt8)) : List UInt8 := codes.flatMap (32 :: ·)

theorem Reads.plain (h : Reads code ts) (hcodes : ∀ s ∈ codes, Plain s) :
    Reads (code ++ spaced codes) (ts ++ codes.map (Token.word · false)) := by
  induction codes generalizing code ts with
  | nil => simpa [spaced] using h
  | cons s codes ih =>
    obtain ⟨hs, hcodes⟩ := forall_mem_cons.mp hcodes
    have hword := h.append hs.readsWord.reads
    simpa [spaced, Word.token] using ih hword hcodes

theorem ReadsWord.lex (h : ReadsWord code w) : lex code = .ok [w.token] := by
  rw [lex_of_run (h [])]
  rfl

/-- **A whole line** that ends with a word. -/
theorem Reads.lex (h : Reads code ts) (hw : ReadsWord code' w) :
    lex (code ++ 32 :: code') = .ok (ts ++ [w.token]) := by
  have hrun : run {} (code ++ 32 :: code') = .ok (atWord ts w) := by
    rw [append_cons, run_append (h [])]
    exact hw ts
  rw [lex_of_run hrun]
  rfl

/-- **A whole line** that ends with words that need no quotes. -/
theorem Reads.lex_plain (h : Reads code ts) (hne : codes ≠ []) (hcodes : ∀ s ∈ codes, Plain s) :
    Shell.lex (code ++ spaced codes) = .ok (ts ++ codes.map (Token.word · false)) := by
  obtain ⟨front, last, rfl⟩ := (eq_nil_or_concat' codes).resolve_left hne
  obtain ⟨hfront, hlast⟩ := forall_mem_append.mp hcodes
  simpa [spaced, Word.token] using (h.plain hfront).lex (hlast last mem_cons_self).readsWord

/-! ### What a reading says of its words -/

/-- The bytes that have been read and are not in a word yet: a backslash. -/
def Mode.pending : Mode → ℕ
  | .escape | .doubleEscape => 1
  | _ => 0

def State.length (st : State) : ℕ := (st.word.getD {}).text.length

/-- **A word is not longer than what has been read**: the first token behind these ones is still in
progress, or is there. -/
def State.Short (T : List Token) (n : ℕ) (st : State) : Prop :=
  st.tokens = T ∧ st.length + st.mode.pending ≤ n ∨
    ∃ tok, T ++ [tok] <+: st.tokens ∧ ∀ t q, tok = .word t q → t.length ≤ n

def Mode.quoting (mode : Mode) : Prop := mode = .single ∨ mode = .double ∨ mode = .doubleEscape

/-- **What a reading keeps**: the words that were not quoted need no quotes, nor does the one in
progress; between quotes it is a quoted one; and the first word is not longer than what was read. -/
structure State.Keeps (T : List Token) (n : ℕ) (st : State) : Prop where
  tokens : ∀ t, Token.word t false ∈ st.tokens → Plain t
  word : ∀ w, st.word = some w → w.quoted = false → Plain w.text
  quotes : st.mode.quoting → ∃ w, st.word = some w ∧ w.quoted = true
  short : st.Short T n

namespace State

variable {T : List Token} {n : ℕ} {mode : Mode}

/-- The word in progress grows by so many bytes at most, and what is added first is no longer than
the word that was in progress. -/
theorem Short.grow {m : ℕ} (h : st.Short T n) (hts : st.tokens <+: st'.tokens)
    (hfirst : ∀ tok more, st'.tokens = st.tokens ++ tok :: more → ∀ t q, tok = .word t q →
      t.length ≤ st.length)
    (hword : st'.length + st'.mode.pending ≤ st.length + st.mode.pending + m) :
    st'.Short T (n + m) := by
  rcases h with ⟨rfl, hle⟩ | ⟨tok, hpre, hle⟩
  · obtain ⟨_ | ⟨tok, more⟩, hmore⟩ := hts
    · rw [append_nil] at hmore
      exact .inl ⟨hmore.symm, by omega⟩
    · refine .inr ⟨tok, ⟨more, by simpa using hmore⟩, fun t q htok => ?_⟩
      have hlen := hfirst tok more hmore.symm t q htok
      omega
  · refine .inr ⟨tok, hpre.trans hts, fun t q htok => ?_⟩
    have hlen := hle t q htok
    omega

theorem pending_le (mode : Mode) : mode.pending ≤ 1 := by
  cases mode <;> simp [Mode.pending]

variable (h : st.Keeps T n)

include h

namespace Keeps

theorem outside (hmode : ¬mode.quoting) : ({ st with mode } : State).Keeps T (n + 1) where
  tokens := h.tokens
  word := h.word
  quotes hq := absurd hq hmode
  short := h.short.grow (prefix_refl _) (by simp) (by
    have hle := pending_le mode
    simp only [length]
    omega)

theorem quoted {w : Word} (hquoted : w.quoted = true)
    (hlen : w.text.length + mode.pending ≤ st.length + st.mode.pending + 1) :
    ({ st with mode, word := some w } : State).Keeps T (n + 1) where
  tokens := h.tokens
  word w' hw' hplain := by
    obtain rfl := Option.some.inj hw'
    exact absurd (hquoted.symm.trans hplain) (by simp)
  quotes _ := ⟨w, rfl, hquoted⟩
  short := h.short.grow (prefix_refl _) (by simp) hlen

theorem push (hmode : st.mode = .plain) (hon : goesOn b) (hnew : st.word = none → begins b) :
    (st.push b).Keeps T (n + 1) where
  tokens := h.tokens
  word w hw hplain := by
    obtain rfl := Option.some.inj hw
    rcases hword : st.word with _ | w
    · exact .of_forall (by simp) (by simpa [hword] using hnew hword)
    · have hw' := h.word w hword (by simpa [hword] using hplain)
      simpa [hword] using hw'.append (t := [b]) (by simpa using hon)
  quotes hq := absurd hq (by simp [State.push, Mode.quoting, hmode])
  short := h.short.grow (prefix_refl _) (by simp [State.push]) (by
    simp [State.push, length, hmode, Mode.pending])

theorem ended {more : List Token} (hmode : ¬mode.quoting)
    (hmore : ∀ tok ∈ more, ∀ t q, tok = .word t q → st.word = some ⟨t, q⟩) :
    (⟨mode, none, st.tokens ++ more⟩ : State).Keeps T (n + 1) where
  tokens t ht := by
    rcases mem_append.mp ht with ht | ht
    · exact h.tokens t ht
    · exact h.word _ (hmore _ ht t false rfl) rfl
  word := by simp
  quotes hq := absurd hq hmode
  short := by
    refine h.short.grow (prefix_append _ _) (fun tok rest heq t q htok => ?_) ?_
    · obtain rfl : more = tok :: rest := append_cancel_left heq
      rw [length, hmore tok mem_cons_self t q htok]
      exact Nat.le_refl _
    · have hle := pending_le mode
      simp only [length, Option.getD_none, length_nil]
      omega

theorem delimit (hmode : ¬st.mode.quoting) (more : List Token)
    (hmore : ∀ tok ∈ more, ∀ t q, tok ≠ .word t q) :
    ({ st.delimit with tokens := st.delimit.tokens ++ more } : State).Keeps T (n + 1) := by
  rcases hword : st.word with _ | w
  · have hended := h.ended hmode fun tok htok t q heq => absurd heq (hmore tok htok t q)
    simpa [State.delimit, hword] using hended
  · have hwords : ∀ tok ∈ w.token :: more, ∀ t q, tok = .word t q → st.word = some ⟨t, q⟩ := by
      intro tok htok t q heq
      rcases mem_cons.mp htok with rfl | htok
      · obtain ⟨rfl, rfl⟩ : w.text = t ∧ w.quoted = q := by simpa [Word.token] using heq
        exact hword
      · exact absurd heq (hmore tok htok t q)
    simpa [State.delimit, hword] using h.ended hmode hwords

theorem delimitAt (op : List UInt8) :
    ({ st.delimitAt b with mode := .operator op } : State).Keeps T (n + 1) := by
  have hquoting : ¬(Mode.operator op).quoting := by simp [Mode.quoting]
  unfold State.delimitAt
  split
  · exact h.outside hquoting
  · rename_i w hword
    split_ifs
    · exact h.ended hquoting (by simp)
    · have hwords : ∀ tok ∈ [w.token], ∀ t q, tok = .word t q → st.word = some ⟨t, q⟩ := by
        intro tok htok t q heq
        obtain rfl := mem_singleton.mp htok
        obtain ⟨rfl, rfl⟩ : w.text = t ∧ w.quoted = q := by simpa [Word.token] using heq
        exact hword
      simpa [State.delimit, hword] using h.ended hquoting hwords

theorem readPlain (hmode : st.mode = .plain) (h0 : b ≠ 0) (hread : st.readPlain b = .ok st') :
    st'.Keeps T (n + 1) := by
  unfold State.readPlain at hread
  split at hread
  case h_1 => -- a backslash
    cases hread
    exact h.outside (by simp [Mode.quoting])
  case h_2 | h_3 => -- a quote
    cases hread
    exact h.quoted rfl (by simp [length, hmode, Mode.pending])
  case h_4 => cases hread
  case h_5 hm => -- a tilde
    split_ifs at hread with hnone
    cases hread
    exact h.push hmode (by simp [goesOn, h0, hm]) fun hword => absurd hword (by simpa using hnone)
  case h_6 hm => -- a hash
    split_ifs at hread with hnone
    · cases hread
      exact h.outside (by simp [Mode.quoting])
    · cases hread
      exact h.push hmode (by simp [goesOn, h0, hm]) fun hword => absurd hword (by simpa using hnone)
  case h_7 => -- a blank
    cases hread
    simpa using h.delimit (by simp [Mode.quoting, hmode]) [] (by simp)
  case h_8 => -- a newline
    cases hread
    exact h.delimit (by simp [Mode.quoting, hmode]) [.newline] (by simp)
  case h_9 =>
    cases hread
    exact h.delimitAt [b]
  case h_10 hm =>
    cases hread
    exact h.push hmode (by simp [goesOn, h0, hm]) fun _ => by simp [begins, h0, hm]

/-- **One byte of the line.** -/
theorem step (hstep : st.step b = .ok st') : st'.Keeps T (n + 1) := by
  unfold State.step at hstep
  by_cases h0 : b = 0
  · rw [if_pos h0] at hstep
    cases hstep
  rw [if_neg h0] at hstep
  split at hstep
  case h_1 hmode => exact h.readPlain hmode h0 hstep
  case h_2 hmode => -- a comment
    split_ifs at hstep
    · have hplain : ({ st with mode := .plain } : State).Keeps T n :=
        ⟨h.tokens, h.word, by simp [Mode.quoting], by
          simpa [Short, length, hmode, Mode.pending] using h.short⟩
      exact hplain.readPlain rfl h0 hstep
    · cases hstep
      exact h.outside (by simp [Mode.quoting, hmode])
  case h_3 hmode => -- between single quotes
    obtain ⟨w, hw, hquoted⟩ := h.quotes (.inl hmode)
    split_ifs at hstep
    · cases hstep
      exact h.outside (by simp [Mode.quoting])
    · cases hstep
      exact h.quoted (by simpa [hw] using hquoted) (by simp [length, hmode, Mode.pending])
  case h_4 hmode => -- between double quotes
    obtain ⟨w, hw, hquoted⟩ := h.quotes (.inr (.inl hmode))
    split_ifs at hstep
    · cases hstep
      exact h.outside (by simp [Mode.quoting])
    · cases hstep
      rw [hw]
      exact h.quoted hquoted (by simp [length, hw, Mode.pending])
    · cases hstep
      exact h.quoted (by simpa [hw] using hquoted) (by simp [length, hmode, Mode.pending])
  case h_5 hmode => -- behind a backslash
    split_ifs at hstep
    · cases hstep
      exact h.outside (by simp [Mode.quoting])
    · cases hstep
      exact h.quoted rfl (by simp [length, State.quote, hmode, Mode.pending])
  case h_6 hmode => -- behind a backslash between double quotes
    obtain ⟨w, hw, hquoted⟩ := h.quotes (.inr (.inr hmode))
    split_ifs at hstep
    · cases hstep
      rw [hw]
      exact h.quoted hquoted (by simp [length, hw, hmode, Mode.pending]; omega)
    · cases hstep
      exact h.quoted (by simpa [hw] using hquoted) (by simp [length, hmode, Mode.pending])
    · cases hstep
      exact h.quoted (by simpa [State.push, hw] using hquoted)
        (by simp [length, State.push, hmode, Mode.pending])
  case h_7 op hmode => -- an operator goes on, or is complete
    split_ifs at hstep
    · cases hstep
      exact h.outside (by simp [Mode.quoting])
    · unfold emit at hstep
      split_ifs at hstep
      · cases hstep
      · have hemitted : ({ st with mode := .plain, tokens := st.tokens ++ [.operator op] } :
            State).Keeps T n := by
          refine ⟨fun t ht => h.tokens t (by simpa using ht),
            h.word, by simp [Mode.quoting], .inr ?_⟩
          rcases h.short with ⟨rfl, -⟩ | ⟨tok, hpre, hle⟩
          · exact ⟨_, prefix_refl _, by simp⟩
          · exact ⟨tok, hpre.trans (prefix_append _ _), hle⟩
        exact hemitted.readPlain rfl h0 hstep

theorem run {input : List UInt8} (hrun : Shell.run st input = .ok st') :
    st'.Keeps T (n + input.length) := by
  induction input generalizing st n with
  | nil =>
    cases hrun
    exact h
  | cons b input ih =>
    rw [Shell.run, foldlM_cons] at hrun
    rcases hstep : st.step b with err | st₁
    · rw [hstep] at hrun
      cases hrun
    · rw [hstep] at hrun
      rw [length_cons, Nat.add_comm input.length, ← Nat.add_assoc]
      exact ih (h.step hstep) hrun

theorem finish {ts : List Token} (hfinish : st.finish = .ok ts) (t : List UInt8)
    (ht : Token.word t false ∈ ts) : Plain t := by
  unfold State.finish at hfinish
  split at hfinish
  case h_1 hmode | h_2 hmode =>
    cases hfinish
    exact (h.delimit (by simp [Mode.quoting, hmode]) [] (by simp)).tokens t (by simpa using ht)
  case h_3 =>
    unfold emit at hfinish
    split_ifs at hfinish
    · cases hfinish
    · cases hfinish
      exact h.tokens t (by simpa using ht)
  all_goals cases hfinish

end Keeps

end State

variable {input body : List UInt8} {T ts : List Token}

theorem exists_run_of_lex (h : lex input = .ok ts) :
    ∃ st, run {} input = .ok st ∧ st.finish = .ok ts := by
  rw [lex] at h
  rcases hrun : run {} input with err | st
  · rw [hrun] at h
    cases h
  · rw [hrun] at h
    exact ⟨st, rfl, h⟩

theorem keeps_init : State.Keeps [] 0 {} :=
  ⟨by simp, by simp, by simp [Mode.quoting], .inl ⟨rfl, Nat.le_refl _⟩⟩

/-- **A word that was not quoted needs no quotes.** -/
theorem plain_of_lex (h : lex input = .ok ts) (hs : Token.word s false ∈ ts) : Plain s := by
  obtain ⟨st, hrun, hfinish⟩ := exists_run_of_lex h
  exact (keeps_init.run hrun).finish hfinish s hs

theorem exists_of_run_append {first second : List UInt8} (h : run st (first ++ second) = .ok st') :
    ∃ st₁, run st first = .ok st₁ ∧ run st₁ second = .ok st' := by
  rw [run, foldlM_append] at h
  rcases hfirst : first.foldlM State.step st with err | st₁
  · rw [hfirst] at h
    cases h
  · rw [hfirst] at h
    exact ⟨st₁, hfirst, h⟩

theorem not_mem_zero_of_run (h : run st input = .ok st') : 0 ∉ input := by
  induction input generalizing st with
  | nil => exact not_mem_nil
  | cons b input ih =>
    rw [run, foldlM_cons] at h
    rcases hstep : st.step b with err | st₁
    · rw [hstep] at h
      cases h
    · rw [hstep] at h
      have hb : b ≠ 0 := by
        rintro rfl
        cases hstep
      simp [Ne.symm hb, ih h]

theorem State.Short.finish {n : ℕ} {t : List UInt8} {q : Bool} (h : st.Short T n)
    (hfinish : st.finish = .ok (T ++ [.word t q])) : t.length ≤ n := by
  have hdelimit : st.delimit.tokens = T ++ [.word t q] → t.length ≤ n := by
    intro heq
    rcases h with ⟨rfl, hle⟩ | ⟨tok, hpre, hle⟩
    · rcases hword : st.word with _ | w
      · simp [State.delimit, hword] at heq
      · obtain ⟨rfl, -⟩ : w.text = t ∧ w.quoted = q := by
          simpa [State.delimit, hword, Word.token] using heq
        rw [State.length, hword] at hle
        exact Nat.le_of_add_right_le hle
    · have hpre' : T ++ [tok] <+: T ++ [.word t q] := by
        rw [← heq]
        refine hpre.trans ?_
        unfold State.delimit
        split
        · exact prefix_refl _
        · exact prefix_append _ _
      have htok : tok = .word t q := by
        simpa using hpre'.eq_of_length (by simp)
      exact hle t q htok
  unfold State.finish at hfinish
  split at hfinish
  case h_1 | h_2 =>
    exact hdelimit (by simpa using hfinish)
  case h_3 op hmode =>
    unfold State.emit at hfinish
    split_ifs at hfinish
    · cases hfinish
    · have heq : st.tokens ++ [Token.operator op] = T ++ [.word t q] := by
        injection hfinish
      exact absurd (append_inj_right' heq rfl) (by simp)
  all_goals cases hfinish

theorem State.Keeps.last_quote {n : ℕ} (h : st.Keeps T n) (hstep : st.step 39 = .ok st')
    (hfinish : st'.finish = .ok ts) : st'.Short T n := by
  unfold State.step at hstep
  rw [if_neg (by decide)] at hstep
  split at hstep
  case h_1 hmode =>
    cases hstep
    cases hfinish
  case h_2 =>
    cases hstep
    exact h.short
  case h_3 hmode =>
    cases hstep
    exact h.short.grow (m := 0) (prefix_refl _) (by simp) (by simp [length, hmode, Mode.pending])
  case h_4 hmode =>
    cases hstep
    simp [State.finish, State.push, hmode] at hfinish
  case h_5 hmode =>
    cases hstep
    exact h.short.grow (m := 0) (prefix_refl _) (by simp [State.push, State.quote])
      (by simp [length, State.push, State.quote, hmode, Mode.pending])
  case h_6 hmode =>
    cases hstep
    cases hfinish
  case h_7 op hmode =>
    split_ifs at hstep with hlong
    · have hnot : ∀ l ∈ longOperators, l.getLast? ≠ some 39 := by decide
      exact absurd getLast?_concat (hnot _ hlong)
    · unfold State.emit at hstep
      split_ifs at hstep
      · cases hstep
      · cases hstep
        cases hfinish

/-- **A text between quotes that is read as itself** has no quote in it. -/
theorem not_mem_of_quoteWith (hT : ∀ t, Token.word t false ∈ T → Plain t)
    (hrun : run ⟨.plain, none, T⟩ (quoteWith body) = .ok st)
    (hfinish : st.finish = .ok (T ++ [.word body true])) : ∀ b ∈ body, b ≠ 0 ∧ b ≠ 39 := by
  have hzero := not_mem_zero_of_run hrun
  have hquote : 39 ∉ body := by
    intro hmem
    -- The first quote ends the quoted part, and the last one is in no word.
    obtain ⟨u, v, rfl, hu⟩ := eq_append_cons_of_mem hmem
    have hopen : run ⟨.plain, none, T⟩ (quoteWith u) = .ok (atWord T ⟨u, true⟩) := by
      refine readsWord_quoteWith (encodes_self fun b hb => ⟨?_, ?_⟩) T
      · rintro rfl
        exact hzero (by simp [quoteWith, hb])
      · rintro rfl
        exact hu hb
    have hline : quoteWith (u ++ 39 :: v) = quoteWith u ++ (v ++ [39]) := by simp [quoteWith]
    rw [hline, run_append hopen] at hrun
    obtain ⟨st₁, hv, hlast⟩ := exists_of_run_append hrun
    have hkeeps : (atWord T ⟨u, true⟩).Keeps T u.length :=
      ⟨hT, by simp [atWord], by simp [atWord, Mode.quoting], .inl ⟨rfl, Nat.le_refl _⟩⟩
    have hstep : st₁.step 39 = .ok st := by simpa [run] using hlast
    have hlen := ((hkeeps.run hv).last_quote hstep hfinish).finish hfinish
    simp only [length_append, length_cons] at hlen
    omega
  intro b hb
  refine ⟨?_, ?_⟩
  · rintro rfl
    exact hzero (by simp [quoteWith, hb])
  · rintro rfl
    exact hquote hb

end Containers.Shell
