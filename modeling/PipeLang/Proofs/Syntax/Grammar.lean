import Mathlib.Computability.Language
import PipeLang.Proofs.Syntax.Completeness

/-!
# The grammar and what the parser accepts

`documented` is the grammar of the language in extended Backus-Naur form, `Derives` says which
tokens a phrase of such a grammar derives.

The parser reads a block as a whole stage as soon as a stage begins with a brace. So a block
is never the first operand of an operator at the start of a stage, nor called there, though
`documented` derives both. `accepted` is `documented` with that lookahead, and it is what the
parser accepts (`parse_ok_iff_accepted`).
-/

namespace PipeLang

/-! ## Kinds up to their values -/

namespace Kind

variable {k : Kind}

theorem alike_symbol {s : Symbol} : k.alike (.symbol s) ↔ k = .symbol s := by
  cases k <;> simp [alike]

theorem alike_keyword {w : Keyword} : k.alike (.keyword w) ↔ k = .keyword w := by
  cases k <;> simp [alike]

theorem alike_identifier : k.alike .identifier ↔ k = .identifier := by
  cases k <;> simp [alike]

theorem alike_eof : k.alike .eof ↔ k = .eof := by
  cases k <;> simp [alike]

theorem alike_string {s : String} : k.alike (.string s) ↔ ∃ s', k = .string s' := by
  cases k <;> simp [alike]

theorem alike_number {x : Float} : k.alike (.number x) ↔ ∃ x', k = .number x' := by
  cases k <;> simp [alike]

end Kind

namespace Parser

/-! ## Names -/

/-- A tree that is a name is read from the name alone, and a rule that goes on from a tree
reads nothing then. -/
def Rule.NameAlone : (r : Rule) → r.Tree → List Token → Prop
  | .expression, e, us | .stage, e, us | .tier _, e, us | .operand _, e, us | .unary, e, us
  | .call, e, us | .primary, e, us => ∀ x, e = .name x → us = [x] ∧ x.kind = .identifier
  | .pipes v, e, us | .operators _ v, e, us | .calls v, e, us =>
    ∀ x, e = .name x → v = .name x ∧ us = []
  | _, _, _ => True

/-- What a pipe is fed to is a call, never a name. -/
theorem pipeInto_ne_name (v e : Expr) (p x : Token) : pipeInto v p e ≠ .name x := by
  unfold pipeInto
  split <;> simp

/-- By induction on the reading : only the name itself is read as a name. -/
theorem Reads.nameAlone {r : Rule} {x : r.Tree} {us : List Token} (h : Reads r x us) :
    r.NameAlone x us := by
  induction h with
  | expression _ _ ih ih' | tier _ _ ih ih' | call _ _ ih ih' =>
    rintro x rfl
    obtain ⟨rfl, rfl⟩ := ih' x rfl
    simpa using ih x rfl
  | pipe _ _ _ _ ih' =>
    rintro x rfl
    exact absurd (ih' x rfl).1 (pipeInto_ne_name _ _ _ _)
  | operator _ _ _ _ ih' | argumentsOf _ _ _ _ ih' =>
    rintro x rfl
    simpa using (ih' x rfl).1
  | operatorStage _ _ ih => exact ih
  | comparison _ ih | addition _ ih | product _ ih | factor _ ih | callee _ ih => exact ih
  | name h =>
    rintro x ⟨⟩
    exact ⟨rfl, h⟩
  | _ => simp [Rule.NameAlone]

/-- An expression that is a name is read from the name alone. -/
theorem Reads.name_inv {x : Token} {us : List Token} (h : Reads .expression (.name x) us) :
    us = [x] ∧ x.kind = .identifier :=
  h.nameAlone x rfl

end Parser

open PipeLang.Parser (Reads)

namespace Grammar

/-! ## Phrases -/

/-- The names that the grammar defines. -/
inductive Nonterminal where
  | program
  | statement
  | declaration
  | reassignment
  | expression
  | stage
  | ifOrEquality
  | ifChain
  | equality
  | comparison
  | addition
  | multiplication
  | unary
  | call
  | primary
  | block
  | parameters
  | arguments

/-- The right side of a rule. -/
inductive Phrase where
  /-- A token of this kind, whatever its decoded value is. -/
  | token (k : Kind)
  | rule (n : Nonterminal)
  | seq (p q : Phrase)
  | alt (p q : Phrase)
  /-- Any number of times. -/
  | star (p : Phrase)
  | opt (p : Phrase)
  /-- As `p`, but not with a token of kind `k` in front. -/
  | notAt (k : Kind) (p : Phrase)

namespace Phrase

instance : Append Phrase := ⟨seq⟩

instance : OrOp Phrase := ⟨alt⟩

/-- A symbol. -/
def symbol (s : Symbol) : Phrase := token (.symbol s)

/-- A keyword. -/
def word (k : Keyword) : Phrase := token (.keyword k)

/-- A string, with any contents. -/
def string : Phrase := token (.string "")

/-- A number, of any value. -/
def number : Phrase := token (.number 0)

/-- A name. -/
def ident : Phrase := token .identifier

/-- One or more, with separators between them. -/
def sepBy (p separator : Phrase) : Phrase := p ++ star (separator ++ p)

end Phrase

open Phrase in
/-- The grammar of the language, lowest precedence first. -/
def documented : Nonterminal → Phrase
  | .program => star (rule .statement) ++ token .eof
  | .statement =>
    word .printWord ++ rule .expression ++ symbol .semicolon ||| rule .declaration
  | .declaration =>
    word .letWord ++ opt (word .mutWord) ++ ident ++ symbol .equal ++ rule .expression
        ++ symbol .semicolon
      ||| word .funcWord ++ ident ++ symbol .leftParen ++ opt (rule .parameters)
        ++ symbol .rightParen ++ rule .block ++ symbol .semicolon
      ||| rule .reassignment
  | .reassignment =>
    ident ++ symbol .equal ++ rule .expression ++ symbol .semicolon
      ||| rule .expression ++ symbol .semicolon
  | .expression => sepBy (rule .stage) (symbol .pipe)
  | .stage => rule .block ||| rule .ifOrEquality
  | .ifOrEquality => word .ifWord ++ rule .ifChain ||| rule .equality
  | .ifChain =>
    rule .expression ++ rule .block
      ++ star (word .elseWord ++ word .ifWord ++ rule .expression ++ rule .block)
      ++ opt (word .elseWord ++ rule .block)
  | .equality => sepBy (rule .comparison) (symbol .bangEqual ||| symbol .equalEqual)
  | .comparison =>
    sepBy (rule .addition)
      (word .andWord ||| word .orWord ||| symbol .greater ||| symbol .greaterEqual
        ||| symbol .less ||| symbol .lessEqual)
  | .addition => sepBy (rule .multiplication) (symbol .minus ||| symbol .plus)
  | .multiplication => sepBy (rule .unary) (symbol .slash ||| symbol .star)
  | .unary => (symbol .bang ||| symbol .minus) ++ rule .unary ||| rule .call
  | .call =>
    rule .primary ++ star (symbol .leftParen ++ opt (rule .arguments) ++ symbol .rightParen)
  | .primary =>
    number ||| string ||| word .trueWord ||| word .falseWord ||| word .nilWord ||| ident
      ||| symbol .leftParen ++ rule .expression ++ symbol .rightParen ||| rule .block
  | .block => symbol .leftBrace ++ star (rule .statement) ++ symbol .rightBrace
  | .parameters => sepBy ident (symbol .comma)
  | .arguments => sepBy (rule .expression) (symbol .comma)

open Phrase in
/-- The grammar that the parser follows : a stage that begins with a brace is a block. -/
def accepted : Nonterminal → Phrase
  | .stage => rule .block ||| notAt (.symbol .leftBrace) (rule .ifOrEquality)
  | n => documented n

/-- The phrase derives the tokens, by the rules of `g`. -/
inductive Derives (g : Nonterminal → Phrase) : Phrase → List Token → Prop
  | token {k : Kind} {t : Token} : t.kind.alike k → Derives g (.token k) [t]
  | rule {n : Nonterminal} {us : List Token} : Derives g (g n) us → Derives g (.rule n) us
  | seq {p q : Phrase} {us vs : List Token} :
    Derives g p us → Derives g q vs → Derives g (p ++ q) (us ++ vs)
  | left {p q : Phrase} {us : List Token} : Derives g p us → Derives g (p ||| q) us
  | right {p q : Phrase} {us : List Token} : Derives g q us → Derives g (p ||| q) us
  | done {p : Phrase} : Derives g (.star p) []
  | more {p : Phrase} {us vs : List Token} :
    Derives g p us → Derives g (.star p) vs → Derives g (.star p) (us ++ vs)
  | none {p : Phrase} : Derives g (.opt p) []
  | some {p : Phrase} {us : List Token} : Derives g p us → Derives g (.opt p) us
  | notAt {k : Kind} {p : Phrase} {us : List Token} :
    (∀ t ∈ us.head?, ¬ t.kind.alike k) → Derives g p us → Derives g (.notAt k p) us

namespace Derives

variable {g h : Nonterminal → Phrase} {p q : Phrase} {t : Token} {us : List Token}

theorem symbol {s : Symbol} (ht : t.kind = .symbol s) : Derives g (.symbol s) [t] :=
  .token (Kind.alike_symbol.2 ht)

theorem word {k : Keyword} (ht : t.kind = .keyword k) : Derives g (.word k) [t] :=
  .token (Kind.alike_keyword.2 ht)

theorem ident (ht : t.kind = .identifier) : Derives g .ident [t] :=
  .token (Kind.alike_identifier.2 ht)

theorem string {s : String} (ht : t.kind = .string s) : Derives g .string [t] :=
  .token (Kind.alike_string.2 ⟨s, ht⟩)

theorem number {x : Float} (ht : t.kind = .number x) : Derives g .number [t] :=
  .token (Kind.alike_number.2 ⟨x, ht⟩)

theorem of_eq (hd : Derives g p us) {vs : List Token} (h : us = vs) : Derives g p vs :=
  h ▸ hd

/-- A sequence is derived part by part. -/
theorem seq_inv (hd : Derives g (p ++ q) us) :
    ∃ vs ws, us = vs ++ ws ∧ Derives g p vs ∧ Derives g q ws := by
  generalize hr : p ++ q = r at hd
  cases hd with
  | seq hp hq => cases hr; exact ⟨_, _, rfl, hp, hq⟩
  | _ => cases hr

/-- An alternative is derived as one of the two. -/
theorem alt_inv (hd : Derives g (p ||| q) us) : Derives g p us ∨ Derives g q us := by
  generalize hr : p ||| q = r at hd
  cases hd with
  | left hp => cases hr; exact .inl hp
  | right hq => cases hr; exact .inr hq
  | _ => cases hr

/-- A grammar whose rules `h` derives derives no more than `h`. -/
theorem mono (hrules : ∀ n vs, Derives h (g n) vs → Derives h (.rule n) vs)
    (hd : Derives g p us) : Derives h p us := by
  induction hd with
  | token ht => exact .token ht
  | rule _ ih => exact hrules _ _ ih
  | seq _ _ ih ih' => exact .seq ih ih'
  | left _ ih => exact .left ih
  | right _ ih => exact .right ih
  | done => exact .done
  | more _ _ ih ih' => exact .more ih ih'
  | none => exact .none
  | some _ ih => exact .some ih
  | notAt hk _ ih => exact .notAt hk ih

end Derives

/-! ## What is read is derived -/

section

open Phrase

/-- The operators of a level. -/
def operatorOf : Parser.Tier → Phrase
  | .equality => symbol .bangEqual ||| symbol .equalEqual
  | .comparison =>
    word .andWord ||| word .orWord ||| symbol .greater ||| symbol .greaterEqual
      ||| symbol .less ||| symbol .lessEqual
  | .addition => symbol .minus ||| symbol .plus
  | .product => symbol .slash ||| symbol .star

/-- The operands of a level. -/
def operandOf : Parser.Tier → Nonterminal
  | .equality => .comparison
  | .comparison => .addition
  | .addition => .multiplication
  | .product => .unary

/-- What the grammar calls a level. -/
def nonterminalOf : Parser.Tier → Nonterminal
  | .equality => .equality
  | .comparison => .comparison
  | .addition => .addition
  | .product => .multiplication

/-- Every level of operators is one operand or several, with operators between them. -/
theorem accepted_nonterminalOf (t : Parser.Tier) :
    accepted (nonterminalOf t) = sepBy (rule (operandOf t)) (operatorOf t) := by
  cases t <;> rfl

/-- What a rule of the parser reads, in the grammar. -/
def phraseOf : Parser.Rule → Phrase
  | .program => star (rule .statement)
  | .statement => rule .statement
  | .parameters => opt (rule .parameters) ++ symbol .rightParen
  | .parameterList => rule .parameters ++ symbol .rightParen
  | .block _ => rule .block
  | .statements => star (rule .statement) ++ symbol .rightBrace
  | .expression => rule .expression
  | .pipes _ => star (symbol .pipe ++ rule .stage)
  | .stage => rule .stage
  | .branches =>
    star (word .elseWord ++ word .ifWord ++ rule .expression ++ rule .block)
      ++ opt (word .elseWord ++ rule .block)
  | .tier t => rule (nonterminalOf t)
  | .operand t => rule (operandOf t)
  | .operators t _ => star (operatorOf t ++ rule (operandOf t))
  | .unary => rule .unary
  | .call => rule .call
  | .calls _ => star (symbol .leftParen ++ opt (rule .arguments) ++ symbol .rightParen)
  | .arguments => opt (rule .arguments) ++ symbol .rightParen
  | .argumentList => rule .arguments ++ symbol .rightParen
  | .primary => rule .primary

end

/-- The operators that the parser takes on a level are those of the grammar. -/
theorem Derives.operatorOf {g : Nonterminal → Phrase} {t : Parser.Tier} {o : Token}
    (h : t.admits o.kind) : Derives g (operatorOf t) [o] := by
  obtain ⟨k, lexeme, line⟩ := o
  cases t <;> cases k <;> simp [Parser.Tier.admits] at h
  case equality.symbol =>
    obtain rfl | rfl := h
    · exact .left (.symbol rfl)
    · exact .right (.symbol rfl)
  case comparison.symbol =>
    obtain ((rfl | rfl) | rfl) | rfl := h
    · exact .left (.left (.left (.right (.symbol rfl))))
    · exact .left (.left (.right (.symbol rfl)))
    · exact .left (.right (.symbol rfl))
    · exact .right (.symbol rfl)
  case comparison.keyword =>
    obtain rfl | rfl := h
    · exact .left (.left (.left (.left (.left (.word rfl)))))
    · exact .left (.left (.left (.left (.right (.word rfl)))))
  case addition.symbol =>
    obtain rfl | rfl := h
    · exact .left (.symbol rfl)
    · exact .right (.symbol rfl)
  case product.symbol =>
    obtain rfl | rfl := h
    · exact .left (.symbol rfl)
    · exact .right (.symbol rfl)

theorem Derives.unaryOperator {g : Nonterminal → Phrase} {o : Token}
    (h : Parser.isUnaryOperator o.kind) : Derives g (.symbol .bang ||| .symbol .minus) [o] := by
  obtain ⟨k, lexeme, line⟩ := o
  cases k <;> simp [Parser.isUnaryOperator] at h
  obtain rfl | rfl := h
  · exact .left (.symbol rfl)
  · exact .right (.symbol rfl)

/-- A list of one item. -/
theorem Derives.sepBy_one {g : Nonterminal → Phrase} {p separator : Phrase} {us : List Token}
    (hp : Derives g p us) : Derives g (.sepBy p separator) us :=
  (hp.seq .done).of_eq (by simp)

/-- A list with one more item in front. -/
theorem Derives.sepBy_cons {g : Nonterminal → Phrase} {p separator : Phrase}
    {us vs ws : List Token} (hp : Derives g p us) (hs : Derives g separator vs)
    (hd : Derives g (.sepBy p separator) ws) :
    Derives g (.sepBy p separator) (us ++ (vs ++ ws)) := by
  obtain ⟨first, others, rfl, hfirst, hothers⟩ := hd.seq_inv
  have item := (hs.seq hfirst).more hothers
  exact hp.seq (by simpa using item)

/-- A brace, and what is read behind it. -/
theorem derives_block {b : Token} {us : List Token} (hb : b.kind = .symbol .leftBrace)
    (h : Derives accepted (phraseOf .statements) us) :
    Derives accepted (.rule .block) (b :: us) := by
  obtain ⟨body, close, rfl, hbody, hclose⟩ := h.seq_inv
  exact .rule (((Derives.symbol hb).seq hbody).seq hclose)

/-- Whatever a rule of the parser reads, the grammar derives as the rule's phrase. One case for
each way to read, in the order of the grammar. -/
theorem derives_of_reads {r : Parser.Rule} {x : r.Tree} {us : List Token}
    (h : Reads r x us) : Derives accepted (phraseOf r) us := by
  induction h with
  | endOfProgram | noPipes | noOperators | noCalls => exact .done
  | noBranches => exact Derives.done.seq .none
  | program _ _ ih ih' => exact .more ih ih'
  | print ht _ hs ih => exact .rule (.left (((Derives.word ht).seq ih).seq (.symbol hs)))
  | @declare t _ _ _ _ _ ht hx hq _ hs ih =>
    have front : Derives accepted (.word .letWord ++ .opt (.word .mutWord)) [t] :=
      (Derives.word ht).seq .none
    have body := ((front.seq (.ident hx)).seq (.symbol hq)).seq ih
    exact .rule (.right (.rule (.left (.left (body.seq (.symbol hs))))))
  | declareMut ht hm hx hq _ hs ih =>
    have front := (Derives.word (g := accepted) ht).seq (.some (.word hm))
    have body := ((front.seq (.ident hx)).seq (.symbol hq)).seq ih
    exact .rule (.right (.rule (.left (.left (body.seq (.symbol hs))))))
  | function ht hx hp _ _ hs ih ih' =>
    obtain ⟨vs, ws, rfl, hvs, hws⟩ := ih.seq_inv
    have front := ((Derives.word (g := accepted) ht).seq (.ident hx)).seq (.symbol hp)
    have body := (((front.seq hvs).seq hws).seq ih').seq (.symbol hs)
    exact .rule (.right (.rule (.left (.right (body.of_eq (by simp))))))
  | assign hx hq _ hs ih =>
    have body := ((Derives.ident hx).seq (.symbol hq)).seq ih
    exact .rule (.right (.rule (.right (.rule (.left (body.seq (.symbol hs)))))))
  | evaluate _ hs ih =>
    exact .rule (.right (.rule (.right (.rule (.right (ih.seq (.symbol hs)))))))
  | noParameters hp | noArguments hp => exact Derives.none.seq (.symbol hp)
  | someParameters _ ih | someArguments _ ih =>
    obtain ⟨vs, ws, rfl, hvs, hws⟩ := ih.seq_inv
    exact (Derives.some hvs).seq hws
  | lastParameter h hp =>
    obtain ⟨rfl, hx⟩ := h.name_inv
    exact (Derives.rule ((Derives.ident hx).seq .done)).seq (.symbol hp)
  | parameter h hc _ _ ih =>
    obtain ⟨rfl, hx⟩ := h.name_inv
    obtain ⟨vs, ws, rfl, ⟨⟩ | ⟨hvs⟩, hws⟩ := ih.seq_inv
    have list := Derives.rule (n := .parameters) ((Derives.ident hx).sepBy_cons (.symbol hc) hvs)
    exact (list.seq hws).of_eq (by simp)
  | lastArgument _ hp ih => exact (Derives.rule ih.sepBy_one).seq (.symbol hp)
  | argument _ hc _ ih ih' =>
    obtain ⟨vs, ws, rfl, ⟨⟩ | ⟨hvs⟩, hws⟩ := ih'.seq_inv
    have list := Derives.rule (n := .arguments) (ih.sepBy_cons (.symbol hc) hvs)
    exact (list.seq hws).of_eq (by simp)
  | braces hb _ ih => exact derives_block hb ih
  | blockStage hb _ ih => exact .rule (.left (derives_block hb ih))
  | blockOperand hb _ ih => exact .rule (.right (derives_block hb ih))
  | noStatements hb => exact Derives.done.seq (.symbol hb)
  | statement _ _ ih ih' =>
    obtain ⟨vs, ws, rfl, hvs, hws⟩ := ih'.seq_inv
    exact ((ih.more hvs).seq hws).of_eq (by simp)
  | expression _ _ ih ih' | call _ _ ih ih' => exact .rule (ih.seq ih')
  | pipe hp _ _ ih ih' => exact ((Derives.symbol hp).seq ih).more ih'
  | ifChain hi _ _ _ ih ihbody ihs =>
    obtain ⟨vs, ws, rfl, hvs, hws⟩ := ihs.seq_inv
    have chain := Derives.rule (n := .ifChain) (((ih.seq ihbody).seq hvs).seq hws)
    have whole := (Derives.word hi).seq chain
    refine .rule (.right (.notAt ?_ (.rule (.left (whole.of_eq (by simp))))))
    simp [hi, Kind.alike]
  | operatorStage hhead _ ih =>
    exact .rule (.right (.notAt (fun t ht h => hhead t ht (Kind.alike_symbol.1 h))
      (.rule (.right ih))))
  | elseIf hl hi _ _ _ ih ihbody ihs =>
    obtain ⟨vs, ws, rfl, hvs, hws⟩ := ihs.seq_inv
    have branch := (((Derives.word hl).seq (.word hi)).seq ih).seq ihbody
    exact ((branch.more hvs).seq hws).of_eq (by simp)
  | otherwise hl _ ih => exact Derives.done.seq (.some ((Derives.word hl).seq ih))
  | @tier t _ _ _ _ _ _ ih ih' =>
    refine .rule ?_
    rw [accepted_nonterminalOf]
    exact ih.seq ih'
  | comparison _ ih | addition _ ih | product _ ih | factor _ ih => exact ih
  | operator ho _ _ ih ih' => exact ((Derives.operatorOf ho).seq ih).more ih'
  | unary ho _ ih => exact .rule (.left ((Derives.unaryOperator ho).seq ih))
  | callee _ ih => exact .rule (.right ih)
  | argumentsOf hp _ _ ih ih' =>
    obtain ⟨vs, ws, rfl, hvs, hws⟩ := ih.seq_inv
    have one := ((Derives.symbol hp).seq hvs).seq hws
    exact (one.more ih').of_eq (by simp)
  | falseWord ht => exact .rule (.left (.left (.left (.left (.right (.word ht))))))
  | trueWord ht => exact .rule (.left (.left (.left (.left (.left (.right (.word ht)))))))
  | nilWord ht => exact .rule (.left (.left (.left (.right (.word ht)))))
  | string ht => exact .rule (.left (.left (.left (.left (.left (.left (.right (.string ht))))))))
  | number ht => exact .rule (.left (.left (.left (.left (.left (.left (.left (.number ht))))))))
  | name ht => exact .rule (.left (.left (.right (.ident ht))))
  | grouping hp _ hq ih =>
    exact .rule (.left (.right (((Derives.symbol hp).seq ih).seq (.symbol hq))))

/-! ## What is derived is read -/

/-- The tokens that a phrase stands for, when it is known what the names stand for. -/
def Phrase.language (meaning : Nonterminal → Language Token) : Phrase → Language Token
  | .token k => {us | ∃ t, us = [t] ∧ t.kind.alike k}
  | .rule n => meaning n
  | .seq p q => p.language meaning * q.language meaning
  | .alt p q => p.language meaning + q.language meaning
  | .star p => KStar.kstar (p.language meaning)
  | .opt p => 1 + p.language meaning
  | .notAt k p => {us | (∀ t ∈ us.head?, ¬ t.kind.alike k) ∧ us ∈ p.language meaning}

/-- A meaning that every rule respects holds of whatever is derived. -/
theorem Derives.mem_language {g : Nonterminal → Phrase} {meaning : Nonterminal → Language Token}
    (hmeaning : ∀ n us, us ∈ (g n).language meaning → us ∈ meaning n) {p : Phrase}
    {us : List Token} (h : Derives g p us) : us ∈ p.language meaning := by
  induction h with
  | token ht => exact ⟨_, rfl, ht⟩
  | rule _ ih => exact hmeaning _ _ ih
  | seq _ _ ih ih' => exact Language.append_mem_mul ih ih'
  | left _ ih => exact .inl ih
  | right _ ih => exact .inr ih
  | done => exact Language.nil_mem_kstar _
  | more _ _ ih ih' =>
    obtain ⟨pieces, rfl, hpieces⟩ := ih'
    refine ⟨_ :: pieces, rfl, ?_⟩
    rintro _ (_ | ⟨_, hmem⟩)
    · exact ih
    · exact hpieces _ hmem
  | none => exact .inl rfl
  | some _ ih => exact .inr ih
  | notAt hk _ ih => exact ⟨hk, ih⟩

/-- A property of the empty list that one more piece in front keeps. -/
@[elab_as_elim]
theorem star_induction {l : Language Token} {motive : List Token → Prop} (nil : motive [])
    (append : ∀ us ∈ l, ∀ vs, motive vs → motive (us ++ vs)) {us : List Token}
    (h : us ∈ KStar.kstar l) : motive us := by
  obtain ⟨pieces, rfl, hpieces⟩ := h
  induction pieces with
  | nil => exact nil
  | cons piece pieces ih =>
    have hpiece := hpieces piece (List.mem_cons_self ..)
    exact append _ hpiece _ (ih fun y hy => hpieces y (List.mem_cons_of_mem _ hy))

/-- What the names of the grammar stand for in terms of the parser. Where the parser reads a
list up to its closing parenthesis, or an `if` with what follows, the token that the name
leaves out is supplied. -/
def readable : Nonterminal → Language Token
  | .program => {us | ∃ vs stop p, us = vs ++ [stop] ∧ stop.isEnd ∧ Reads .program p vs}
  | .statement | .declaration | .reassignment => {us | ∃ s, Reads .statement s us}
  | .expression => {us | ∃ e, Reads .expression e us}
  | .stage => {us | ∃ e, Reads .stage e us}
  | .ifOrEquality =>
    {us | (∀ t ∈ us.head?, t.kind ≠ .symbol .leftBrace) → ∃ e, Reads .stage e us}
  | .ifChain => {us | ∀ i : Token, i.kind = .keyword .ifWord → ∃ e, Reads .stage e (i :: us)}
  | .equality => {us | ∃ e, Reads (.tier .equality) e us}
  | .comparison => {us | ∃ e, Reads (.tier .comparison) e us}
  | .addition => {us | ∃ e, Reads (.tier .addition) e us}
  | .multiplication => {us | ∃ e, Reads (.tier .product) e us}
  | .unary => {us | ∃ e, Reads .unary e us}
  | .call => {us | ∃ e, Reads .call e us}
  | .primary => {us | ∃ e, Reads .primary e us}
  | .block => {us | ∃ body, ∀ cause, Reads (.block cause) body us}
  | .parameters =>
    {us | ∀ p : Token, p.kind = .symbol .rightParen →
      ∃ ps, Reads .parameterList ps (us ++ [p])}
  | .arguments =>
    {us | ∀ p : Token, p.kind = .symbol .rightParen →
      ∃ es, Reads .argumentList es (us ++ [p])}

section

variable {meaning : Nonterminal → Language Token} {p q : Phrase} {us : List Token}

theorem mem_symbol {s : Symbol} :
    us ∈ (Phrase.symbol s).language meaning ↔ ∃ t, us = [t] ∧ t.kind = .symbol s := by
  simp only [← Kind.alike_symbol]
  rfl

theorem mem_word {k : Keyword} :
    us ∈ (Phrase.word k).language meaning ↔ ∃ t, us = [t] ∧ t.kind = .keyword k := by
  simp only [← Kind.alike_keyword]
  rfl

theorem mem_ident :
    us ∈ Phrase.ident.language meaning ↔ ∃ t, us = [t] ∧ t.kind = .identifier := by
  simp only [← Kind.alike_identifier]
  rfl

/-- A sequence stands for what its parts stand for, one behind the other. -/
theorem mem_seq :
    us ∈ (p ++ q).language meaning ↔
      ∃ vs ∈ p.language meaning, ∃ ws ∈ q.language meaning, vs ++ ws = us :=
  Language.mem_mul

theorem mem_alt :
    us ∈ (p ||| q).language meaning ↔
      us ∈ p.language meaning ∨ us ∈ q.language meaning :=
  Iff.rfl

theorem mem_unaryOperator
    (h : us ∈ (Phrase.symbol .bang ||| .symbol .minus).language meaning) :
    ∃ o, us = [o] ∧ Parser.isUnaryOperator o.kind := by
  simp only [mem_alt, mem_symbol] at h
  obtain ⟨o, rfl, ho⟩ | ⟨o, rfl, ho⟩ := h <;>
    exact ⟨o, rfl, by simp [ho, Parser.isUnaryOperator]⟩

/-- An operator of a level in the grammar is one that the parser takes on it. -/
theorem mem_operatorOf {t : Parser.Tier} (h : us ∈ (operatorOf t).language meaning) :
    ∃ o, us = [o] ∧ t.admits o.kind := by
  cases t <;> simp only [operatorOf, mem_alt, mem_symbol, mem_word] at h
  case equality | addition | product =>
    obtain ⟨o, rfl, ho⟩ | ⟨o, rfl, ho⟩ := h <;> exact ⟨o, rfl, by simp [ho, Parser.Tier.admits]⟩
  case comparison =>
    obtain ((((⟨o, rfl, ho⟩ | ⟨o, rfl, ho⟩) | ⟨o, rfl, ho⟩) | ⟨o, rfl, ho⟩) | ⟨o, rfl, ho⟩)
      | ⟨o, rfl, ho⟩ := h <;> exact ⟨o, rfl, by simp [ho, Parser.Tier.admits]⟩

end

/-! ### Lists and chains -/

/-- The operand of a level is what the grammar calls the next level. -/
theorem reads_operand {t : Parser.Tier} {us : List Token} (h : us ∈ readable (operandOf t)) :
    ∃ e, Reads (.operand t) e us := by
  cases t with
  | equality => exact h.imp fun _ => .comparison
  | comparison => exact h.imp fun _ => .addition
  | addition => exact h.imp fun _ => .product
  | product => exact h.imp fun _ => .factor

/-- The parser collects operators on what it has read so far, so this is shown for any left
operand. -/
theorem reads_operators {t : Parser.Tier} {us : List Token}
    (h : us ∈ (Phrase.star (operatorOf t ++ .rule (operandOf t))).language readable) :
    ∀ l, ∃ e, Reads (.operators t l) e us := by
  refine star_induction ?nil ?append h
  case nil => exact fun l => ⟨l, .noOperators⟩
  case append =>
    intro us hus vs ih l
    obtain ⟨_, hmark, ws, hws, rfl⟩ := mem_seq.1 hus
    obtain ⟨o, rfl, ho⟩ := mem_operatorOf hmark
    obtain ⟨e, he⟩ := reads_operand hws
    obtain ⟨e', he'⟩ := ih (.binary l o e)
    exact ⟨e', .operator ho he he'⟩

/-- A level of the grammar is read as that level. -/
theorem reads_tier {t : Parser.Tier} {us : List Token}
    (h : us ∈ (Phrase.sepBy (.rule (operandOf t)) (operatorOf t)).language readable) :
    ∃ e, Reads (.tier t) e us := by
  obtain ⟨vs, hvs, ws, hws, rfl⟩ := mem_seq.1 h
  obtain ⟨l, hl⟩ := reads_operand hvs
  obtain ⟨e, he⟩ := reads_operators hws l
  exact ⟨e, .tier hl he⟩

/-- As with operators, what the first pipe is fed with may be any tree. -/
theorem reads_pipes {us : List Token}
    (h : us ∈ (Phrase.star (.symbol .pipe ++ .rule .stage)).language readable) :
    ∀ v, ∃ e, Reads (.pipes v) e us := by
  refine star_induction ?nil ?append h
  case nil => exact fun v => ⟨v, .noPipes⟩
  case append =>
    intro us hus vs ih v
    obtain ⟨_, hmark, ws, ⟨e, he⟩, rfl⟩ := mem_seq.1 hus
    obtain ⟨p, rfl, hp⟩ := mem_symbol.1 hmark
    obtain ⟨e', he'⟩ := ih (Parser.pipeInto v p e)
    exact ⟨e', .pipe hp he he'⟩

/-- Names with commas between them, up to the closing parenthesis. -/
theorem reads_parameterList {p : Token} {us : List Token}
    (h : us ∈ (Phrase.star (.symbol .comma ++ .ident)).language readable)
    (hp : p.kind = .symbol .rightParen) :
    ∀ x : Token, x.kind = .identifier → ∃ ps, Reads .parameterList ps (x :: us ++ [p]) := by
  refine star_induction ?nil ?append h
  case nil => exact fun x hx => ⟨_, .lastParameter (Reads.expression_name hx) hp⟩
  case append =>
    intro us hus vs ih x hx
    obtain ⟨_, hmark, _, hname, rfl⟩ := mem_seq.1 hus
    obtain ⟨c, rfl, hc⟩ := mem_symbol.1 hmark
    obtain ⟨y, rfl, hy⟩ := mem_ident.1 hname
    obtain ⟨ps, hps⟩ := ih y hy
    exact ⟨x :: ps, by simpa using Reads.parameter (Reads.expression_name hx) hc hps⟩

theorem reads_parameters {us : List Token}
    (h : us ∈ (Phrase.opt (.rule .parameters) ++ .symbol .rightParen).language readable) :
    ∃ ps, Reads .parameters ps us := by
  obtain ⟨vs, hvs, _, hclose, rfl⟩ := mem_seq.1 h
  obtain ⟨p, rfl, hp⟩ := mem_symbol.1 hclose
  obtain rfl | hvs := hvs
  · exact ⟨[], .noParameters hp⟩
  · exact (hvs p hp).imp fun _ => .someParameters

/-- Arguments with commas between them, up to the closing parenthesis. -/
theorem reads_argumentList {p : Token} {us : List Token}
    (h : us ∈ (Phrase.star (.symbol .comma ++ .rule .expression)).language readable)
    (hp : p.kind = .symbol .rightParen) :
    ∀ e vs, Reads .expression e vs → ∃ es, Reads .argumentList es (vs ++ us ++ [p]) := by
  refine star_induction ?nil ?append h
  case nil =>
    intro e vs he
    exact ⟨[e], by simpa using Reads.lastArgument he hp⟩
  case append =>
    intro us hus ws ih e vs he
    obtain ⟨_, hmark, xs, ⟨e', he'⟩, rfl⟩ := mem_seq.1 hus
    obtain ⟨c, rfl, hc⟩ := mem_symbol.1 hmark
    obtain ⟨es, hes⟩ := ih e' xs he'
    exact ⟨e :: es, by simpa using Reads.argument he hc hes⟩

theorem reads_arguments {us : List Token}
    (h : us ∈ (Phrase.opt (.rule .arguments) ++ .symbol .rightParen).language readable) :
    ∃ es, Reads .arguments es us := by
  obtain ⟨vs, hvs, _, hclose, rfl⟩ := mem_seq.1 h
  obtain ⟨p, rfl, hp⟩ := mem_symbol.1 hclose
  obtain rfl | hvs := hvs
  · exact ⟨[], .noArguments hp⟩
  · exact (hvs p hp).imp fun _ => .someArguments

/-- Argument lists behind a callee, which may be any tree. -/
theorem reads_calls {us : List Token}
    (h : us ∈ (Phrase.star (.symbol .leftParen ++ .opt (.rule .arguments)
      ++ .symbol .rightParen)).language readable) :
    ∀ c, ∃ e, Reads (.calls c) e us := by
  refine star_induction ?nil ?append h
  case nil => exact fun c => ⟨c, .noCalls⟩
  case append =>
    intro us hus vs ih c
    obtain ⟨_, hopen, _, hclose, rfl⟩ := mem_seq.1 hus
    obtain ⟨_, hmark, ws, hws, rfl⟩ := mem_seq.1 hopen
    obtain ⟨p, rfl, hp⟩ := mem_symbol.1 hmark
    obtain ⟨es, hes⟩ := reads_arguments (mem_seq.2 ⟨_, hws, _, hclose, rfl⟩)
    obtain ⟨e, he⟩ := ih (.call c p es false)
    exact ⟨e, by simpa using Reads.argumentsOf hp hes he⟩

/-- Any number of `else if`, then at most one `else`. -/
theorem reads_branches {us : List Token}
    (h : us ∈ (Phrase.star (.word .elseWord ++ .word .ifWord ++ .rule .expression
      ++ .rule .block)).language readable) :
    ∀ vs ∈ (Phrase.opt (.word .elseWord ++ .rule .block)).language readable,
      ∃ bs, Reads .branches bs (us ++ vs) := by
  refine star_induction ?nil ?append h
  case nil =>
    rintro vs (rfl | hvs)
    · exact ⟨[], .noBranches⟩
    · obtain ⟨_, hmark, ws, ⟨body, hbody⟩, rfl⟩ := mem_seq.1 hvs
      obtain ⟨l, rfl, hl⟩ := mem_word.1 hmark
      exact ⟨_, .otherwise hl (hbody _)⟩
  case append =>
    intro us hus ws ih vs hvs
    obtain ⟨_, hcondition, _, ⟨body, hbody⟩, rfl⟩ := mem_seq.1 hus
    obtain ⟨_, hwords, _, ⟨e, he⟩, rfl⟩ := mem_seq.1 hcondition
    obtain ⟨_, hfirst, _, hsecond, rfl⟩ := mem_seq.1 hwords
    obtain ⟨l, rfl, hl⟩ := mem_word.1 hfirst
    obtain ⟨i, rfl, hi⟩ := mem_word.1 hsecond
    obtain ⟨bs, hbs⟩ := ih vs hvs
    exact ⟨.when e body :: bs, by simpa using Reads.elseIf hl hi he (hbody _) hbs⟩

/-- Statements up to a closing brace. -/
theorem reads_statements {us : List Token}
    (h : us ∈ (Phrase.star (.rule .statement)).language readable) {b : Token}
    (hb : b.kind = .symbol .rightBrace) : ∃ body, Reads .statements body (us ++ [b]) := by
  refine star_induction ?nil ?append h
  case nil => exact ⟨[], .noStatements hb⟩
  case append =>
    rintro us ⟨s, hs⟩ vs ⟨body, hbody⟩
    exact ⟨s :: body, by simpa using Reads.statement hs hbody⟩

/-- Statements up to the end. -/
theorem reads_program {us : List Token}
    (h : us ∈ (Phrase.star (.rule .statement)).language readable) :
    ∃ p, Reads .program p us := by
  refine star_induction ?nil ?append h
  case nil => exact ⟨[], .endOfProgram⟩
  case append =>
    rintro us ⟨s, hs⟩ vs ⟨p, hp⟩
    exact ⟨s :: p, .program hs hp⟩

/-- A block is a brace and the statements behind it. -/
theorem reads_of_readable_block {us : List Token} (h : us ∈ readable .block) :
    ∃ b vs body, us = b :: vs ∧ b.kind = .symbol .leftBrace ∧ Reads .statements body vs := by
  obtain ⟨body, hbody⟩ := h
  cases hbody .branchBlock with
  | braces hb hs => exact ⟨_, _, _, rfl, hb, hs⟩

/-- And these are read as a block. -/
theorem readable_block {us : List Token}
    (h : us ∈ (Phrase.symbol .leftBrace ++ .star (.rule .statement)
      ++ .symbol .rightBrace).language readable) : us ∈ readable .block := by
  obtain ⟨_, hfront, _, hclose, rfl⟩ := mem_seq.1 h
  obtain ⟨_, hmark, us, hus, rfl⟩ := mem_seq.1 hfront
  obtain ⟨b, rfl, hb⟩ := mem_symbol.1 hmark
  obtain ⟨c, rfl, hc⟩ := mem_symbol.1 hclose
  obtain ⟨body, hbody⟩ := reads_statements hus hc
  exact ⟨body, fun cause => .braces hb hbody⟩

/-! ### The rules -/

theorem reads_print {us : List Token}
    (h : us ∈ (Phrase.word .printWord ++ .rule .expression
      ++ .symbol .semicolon).language readable) : ∃ s, Reads .statement s us := by
  obtain ⟨_, hfront, _, hclose, rfl⟩ := mem_seq.1 h
  obtain ⟨_, hmark, us, ⟨e, he⟩, rfl⟩ := mem_seq.1 hfront
  obtain ⟨t, rfl, ht⟩ := mem_word.1 hmark
  obtain ⟨s, rfl, hs⟩ := mem_symbol.1 hclose
  exact ⟨_, .print ht he hs⟩

/-- A declaration, with or without `mut`. -/
theorem reads_let {us : List Token}
    (h : us ∈ (Phrase.word .letWord ++ .opt (.word .mutWord) ++ .ident ++ .symbol .equal
      ++ .rule .expression ++ .symbol .semicolon).language readable) :
    ∃ s, Reads .statement s us := by
  obtain ⟨_, hvalue, _, hclose, rfl⟩ := mem_seq.1 h
  obtain ⟨_, hequal, vs, ⟨e, he⟩, rfl⟩ := mem_seq.1 hvalue
  obtain ⟨_, hnamed, _, hmark, rfl⟩ := mem_seq.1 hequal
  obtain ⟨_, hwords, _, hname, rfl⟩ := mem_seq.1 hnamed
  obtain ⟨_, hword, _, hmut, rfl⟩ := mem_seq.1 hwords
  obtain ⟨t, rfl, ht⟩ := mem_word.1 hword
  obtain ⟨x, rfl, hx⟩ := mem_ident.1 hname
  obtain ⟨q, rfl, hq⟩ := mem_symbol.1 hmark
  obtain ⟨s, rfl, hs⟩ := mem_symbol.1 hclose
  obtain rfl | hmut := hmut
  · exact ⟨_, .declare ht hx hq he hs⟩
  · obtain ⟨m, rfl, hm⟩ := mem_word.1 hmut
    exact ⟨_, .declareMut ht hm hx hq he hs⟩

/-- A function with or without parameters. -/
theorem reads_func {us : List Token}
    (h : us ∈ (Phrase.word .funcWord ++ .ident ++ .symbol .leftParen
      ++ .opt (.rule .parameters) ++ .symbol .rightParen ++ .rule .block
      ++ .symbol .semicolon).language readable) :
    ∃ s, Reads .statement s us := by
  obtain ⟨_, hwhole, _, hend, rfl⟩ := mem_seq.1 h
  obtain ⟨_, hhead, vs, ⟨body, hbody⟩, rfl⟩ := mem_seq.1 hwhole
  obtain ⟨_, hopened, _, hclose, rfl⟩ := mem_seq.1 hhead
  obtain ⟨_, hnamed, us, hus, rfl⟩ := mem_seq.1 hopened
  obtain ⟨_, hwords, _, hopen, rfl⟩ := mem_seq.1 hnamed
  obtain ⟨_, hword, _, hname, rfl⟩ := mem_seq.1 hwords
  obtain ⟨t, rfl, ht⟩ := mem_word.1 hword
  obtain ⟨x, rfl, hx⟩ := mem_ident.1 hname
  obtain ⟨p, rfl, hp⟩ := mem_symbol.1 hopen
  obtain ⟨s, rfl, hs⟩ := mem_symbol.1 hend
  obtain ⟨ps, hps⟩ := reads_parameters (mem_seq.2 ⟨us, hus, _, hclose, rfl⟩)
  exact ⟨.function x ps body, by simpa using Reads.function ht hx hp hps (hbody _) hs⟩

/-- A name, `=`, an expression and a semicolon. -/
theorem reads_assign {us : List Token}
    (h : us ∈ (Phrase.ident ++ .symbol .equal ++ .rule .expression
      ++ .symbol .semicolon).language readable) : ∃ s, Reads .statement s us := by
  obtain ⟨_, hvalue, _, hclose, rfl⟩ := mem_seq.1 h
  obtain ⟨_, hnamed, us, ⟨e, he⟩, rfl⟩ := mem_seq.1 hvalue
  obtain ⟨_, hname, _, hmark, rfl⟩ := mem_seq.1 hnamed
  obtain ⟨x, rfl, hx⟩ := mem_ident.1 hname
  obtain ⟨q, rfl, hq⟩ := mem_symbol.1 hmark
  obtain ⟨s, rfl, hs⟩ := mem_symbol.1 hclose
  exact ⟨_, .assign hx hq he hs⟩

theorem reads_evaluate {us : List Token}
    (h : us ∈ (Phrase.rule .expression ++ .symbol .semicolon).language readable) :
    ∃ s, Reads .statement s us := by
  obtain ⟨us, ⟨e, he⟩, _, hclose, rfl⟩ := mem_seq.1 h
  obtain ⟨s, rfl, hs⟩ := mem_symbol.1 hclose
  exact ⟨_, .evaluate he hs⟩

/-- What follows `if` in the grammar is what the parser reads behind it. -/
theorem reads_ifChain {i : Token} {us : List Token}
    (h : us ∈ (accepted .ifChain).language readable) (hi : i.kind = .keyword .ifWord) :
    ∃ e, Reads .stage e (i :: us) := by
  obtain ⟨_, hfront, ws, hws, rfl⟩ := mem_seq.1 h
  obtain ⟨_, hhead, vs, hvs, rfl⟩ := mem_seq.1 hfront
  obtain ⟨_, ⟨e, he⟩, _, ⟨body, hbody⟩, rfl⟩ := mem_seq.1 hhead
  obtain ⟨bs, hbs⟩ := reads_branches hvs ws hws
  exact ⟨.ifChain (.when e body :: bs), by simpa using Reads.ifChain hi he (hbody _) hbs⟩

theorem reads_grouping {us : List Token}
    (h : us ∈ (Phrase.symbol .leftParen ++ .rule .expression
      ++ .symbol .rightParen).language readable) : ∃ e, Reads .primary e us := by
  obtain ⟨_, hfront, _, hclose, rfl⟩ := mem_seq.1 h
  obtain ⟨_, hmark, us, ⟨e, he⟩, rfl⟩ := mem_seq.1 hfront
  obtain ⟨p, rfl, hp⟩ := mem_symbol.1 hmark
  obtain ⟨q, rfl, hq⟩ := mem_symbol.1 hclose
  exact ⟨_, .grouping hp he hq⟩

/-- An operand, one case for each of its spellings. -/
theorem reads_primary {us : List Token} (h : us ∈ (accepted .primary).language readable) :
    ∃ e, Reads .primary e us := by
  obtain (((((((⟨t, rfl, ht⟩ | ⟨t, rfl, ht⟩) | h) | h) | h) | h) | h) | h) := h
  · obtain ⟨x, hx⟩ := Kind.alike_number.1 ht
    exact ⟨_, .number hx⟩
  · obtain ⟨s, hs⟩ := Kind.alike_string.1 ht
    exact ⟨_, .string hs⟩
  · obtain ⟨t, rfl, ht⟩ := mem_word.1 h
    exact ⟨_, .trueWord ht⟩
  · obtain ⟨t, rfl, ht⟩ := mem_word.1 h
    exact ⟨_, .falseWord ht⟩
  · obtain ⟨t, rfl, ht⟩ := mem_word.1 h
    exact ⟨_, .nilWord ht⟩
  · obtain ⟨t, rfl, ht⟩ := mem_ident.1 h
    exact ⟨_, .name ht⟩
  · exact reads_grouping h
  · obtain ⟨b, vs, body, rfl, hb, hbody⟩ := reads_of_readable_block h
    exact ⟨_, .blockOperand hb hbody⟩

/-- The parser can read what `accepted` derives, rule by rule : `readable` respects the grammar. -/
theorem readable_accepted (n : Nonterminal) (us : List Token)
    (h : us ∈ (accepted n).language readable) : us ∈ readable n := by
  cases n with
  | program =>
    obtain ⟨vs, hvs, _, ⟨stop, rfl, hstop⟩, rfl⟩ := mem_seq.1 h
    obtain ⟨p, hp⟩ := reads_program hvs
    exact ⟨vs, stop, p, rfl, by simpa [Token.isEnd] using Kind.alike_eof.1 hstop, hp⟩
  | statement =>
    obtain h | h := mem_alt.1 h
    · exact reads_print h
    · exact h
  | block => exact readable_block h
  | parameters =>
    obtain ⟨_, hname, us, hus, rfl⟩ := mem_seq.1 h
    obtain ⟨x, rfl, hx⟩ := mem_ident.1 hname
    exact fun p hp => reads_parameterList hus hp x hx
  | arguments =>
    obtain ⟨vs, ⟨e, he⟩, us, hus, rfl⟩ := mem_seq.1 h
    exact fun p hp => reads_argumentList hus hp e vs he
  | expression =>
    obtain ⟨vs, ⟨v, hv⟩, us, hus, rfl⟩ := mem_seq.1 h
    exact (reads_pipes hus v).imp fun _ => .expression hv
  | stage =>
    -- The lookahead is what lets the parser be followed here.
    obtain h | ⟨hhead, h⟩ := h
    · obtain ⟨b, vs, body, rfl, hb, hbody⟩ := reads_of_readable_block h
      exact ⟨_, .blockStage hb hbody⟩
    · exact h fun t ht hk => hhead t ht (Kind.alike_symbol.2 hk)
  | ifOrEquality =>
    intro hhead
    obtain h | ⟨e, he⟩ := mem_alt.1 h
    · obtain ⟨_, hmark, us, hus, rfl⟩ := mem_seq.1 h
      obtain ⟨i, rfl, hi⟩ := mem_word.1 hmark
      exact hus i hi
    · exact ⟨e, .operatorStage hhead he⟩
  | ifChain => exact fun i hi => reads_ifChain h hi
  | equality => exact reads_tier (t := .equality) h
  | comparison => exact reads_tier (t := .comparison) h
  | addition => exact reads_tier (t := .addition) h
  | multiplication => exact reads_tier (t := .product) h
  | unary =>
    obtain h | h := mem_alt.1 h
    · obtain ⟨_, hmark, us, ⟨e, he⟩, rfl⟩ := mem_seq.1 h
      obtain ⟨o, rfl, ho⟩ := mem_unaryOperator hmark
      exact ⟨.unary o e, .unary ho he⟩
    · exact h.imp fun _ => .callee
  | call =>
    obtain ⟨vs, ⟨c, hc⟩, us, hus, rfl⟩ := mem_seq.1 h
    exact (reads_calls hus c).imp fun _ => .call hc
  | primary => exact reads_primary h
  | reassignment =>
    obtain h | h := mem_alt.1 h
    · exact reads_assign h
    · exact reads_evaluate h
  | declaration =>
    obtain (h | h) | h := h
    · exact reads_let h
    · exact reads_func h
    · exact h

/-! ## Programs -/

/-- A program can be read from exactly the lists that `accepted` derives. -/
theorem reads_program_iff {us : List Token} {stop : Token} (hstop : stop.isEnd) :
    (∃ p, Reads .program p us) ↔ Derives accepted (.rule .program) (us ++ [stop]) := by
  have heof : stop.kind = .eof := by simpa [Token.isEnd] using hstop
  constructor
  · rintro ⟨p, hp⟩
    exact .rule (.seq (derives_of_reads hp) (.token (Kind.alike_eof.2 heof)))
  · intro h
    obtain ⟨vs, t, p, heq, -, hp⟩ := h.mem_language readable_accepted
    obtain ⟨rfl, -⟩ := List.append_inj' heq rfl
    exact ⟨p, hp⟩

/-- Dropping the lookahead only adds derivations. -/
theorem derives_documented {p : Phrase} {us : List Token} (h : Derives accepted p us) :
    Derives documented p us := by
  refine h.mono fun n vs hn => ?_
  cases n with
  | stage =>
    obtain hblock | hother := hn.alt_inv
    · exact .rule (.left hblock)
    · cases hother with
      | notAt _ hother => exact .rule (.right hother)
  | _ => exact .rule hn

end Grammar

open Grammar

/-- The parser returns a program exactly when `accepted` derives the tokens with their end
marker, and then `documented` derives them as well. -/
theorem parse_ok_iff_accepted {us : List Token} {stop : Token} (hus : ∀ t ∈ us, ¬ t.isEnd)
    (hstop : stop.isEnd) :
    ((∃ p, parse (us ++ [stop]) = .ok p) ↔
        Derives accepted (.rule .program) (us ++ [stop])) ∧
      (Derives accepted (.rule .program) (us ++ [stop]) →
        Derives documented (.rule .program) (us ++ [stop])) := by
  have hend : ∃ t ∈ us ++ [stop], t.isEnd := ⟨stop, by simp, hstop⟩
  have hbefore : (us ++ [stop]).takeWhile (!·.isEnd) = us := by
    rw [List.takeWhile_append_of_pos (by simpa using hus)]
    simp [hstop]
  refine ⟨?_, derives_documented⟩
  rw [← reads_program_iff hstop]
  simp only [Parser.parse_eq_ok_iff hend, hbefore]

/-- The tokens of `{ };` on one line. -/
def blockTokens : List Token :=
  [⟨.symbol .leftBrace, "\x7b", 1⟩, ⟨.symbol .rightBrace, "\x7d", 1⟩,
    ⟨.symbol .semicolon, ";", 1⟩]

/-- A block alone begins its stage, so it is read, and the documented grammar derives it too. -/
theorem parse_ok_iff_accepted_block :
    (∀ t ∈ blockTokens, ¬ t.isEnd) ∧
      Derives accepted (.rule .program) (blockTokens ++ [⟨.eof, "", 1⟩]) ∧
      Derives documented (.rule .program) (blockTokens ++ [⟨.eof, "", 1⟩]) := by
  have hus : ∀ t ∈ blockTokens, ¬ t.isEnd := by decide
  have hparse : parse (blockTokens ++ [⟨.eof, "", 1⟩]) = .ok [.expression (.block [])] := by cbv
  obtain ⟨hiff, hdocumented⟩ := parse_ok_iff_accepted hus (by decide : Token.isEnd ⟨.eof, "", 1⟩)
  have h := hiff.1 ⟨_, hparse⟩
  exact ⟨hus, h, hdocumented h⟩

/-- The tokens of `{ } + 1;` on one line. -/
def blockSumTokens : List Token :=
  [⟨.symbol .leftBrace, "\x7b", 1⟩, ⟨.symbol .rightBrace, "\x7d", 1⟩,
    ⟨.symbol .plus, "+", 1⟩, ⟨.number 1, "1", 1⟩, ⟨.symbol .semicolon, ";", 1⟩]

/-- The parser rejects a sum of a block and a number, which the grammar derives. -/
theorem blockSum_documented_not_parsed :
    Derives documented (.rule .program) (blockSumTokens ++ [⟨.eof, "", 1⟩]) ∧
      ¬ ∃ p, parse (blockSumTokens ++ [⟨.eof, "", 1⟩]) = .ok p := by
  constructor
  · have block : Reads .primary (.block []) (blockSumTokens.take 2) :=
      .blockOperand rfl (.noStatements rfl)
    have number : Reads .primary (.literal (.number 1)) [⟨.number 1, "1", 1⟩] := .number rfl
    have left : Reads (.tier .product) (.block []) (blockSumTokens.take 2) :=
      .tier (.factor (.callee (.call block .noCalls))) .noOperators
    have right : Reads (.tier .product) (.literal (.number 1)) [⟨.number 1, "1", 1⟩] :=
      .tier (.factor (.callee (.call number .noCalls))) .noOperators
    have sum : Reads (.tier .addition) _ (blockSumTokens.take 4) :=
      .tier (.product left)
        (.operator (o := ⟨.symbol .plus, "+", 1⟩) rfl (.product right) .noOperators)
    have equality : Reads (.tier .equality) _ (blockSumTokens.take 4) :=
      .tier (.comparison (.tier (.addition sum) .noOperators)) .noOperators
    have stage : Derives documented (.rule .stage) (blockSumTokens.take 4) :=
      .rule (.right (.rule (.right (derives_documented (derives_of_reads equality)))))
    have expression : Derives documented (.rule .expression) (blockSumTokens.take 4) :=
      .rule (stage.seq .done)
    have line := expression.seq (.symbol (t := ⟨.symbol .semicolon, ";", 1⟩) rfl)
    have statement : Derives documented (.rule .statement) blockSumTokens :=
      .rule (.right (.rule (.right (.rule (.right line)))))
    exact .rule (.seq (.more statement .done) (.token rfl))
  · rintro ⟨p, hp⟩
    have hparse : (parse (blockSumTokens ++ [⟨.eof, "", 1⟩])).isOk = false := by
      decide +kernel
    rw [hp] at hparse
    cases hparse

end PipeLang
