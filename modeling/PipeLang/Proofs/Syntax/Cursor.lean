import PipeLang.Proofs.Syntax.EndMarker
import PipeLang.Proofs.Syntax.Lists

/-!
# The rules on an array of tokens

A parser can keep all tokens and a cursor into them (`indexed`). It looks at the token under
the cursor, or at the last one when the cursor is behind it, and it reads a token by moving
the cursor and looking back. Nothing but the end marker keeps the cursor from running out of
the tokens.

With an end marker, this parser is the parser on lists, whose remaining tokens are those
between the cursor and the marker (`Tracks`). The cursor never passes the marker, every index
is one of a token up to it, and every iteration of a loop moves the cursor (`parse_safe`).
-/

namespace PipeLang

namespace Parser

/-! ## A cursor -/

/-- What happens to a cursor. -/
inductive Event where
  /-- The token with this index was looked at. -/
  | looked (index : Nat)
  /-- The cursor was moved here. -/
  | moved (position : Nat)
  /-- An iteration of a loop took the cursor from one place to another. -/
  | iterated (start stop : Nat)

/-- Where the cursor is, and what has happened to it, the latest first. -/
structure Cursor where
  position : Nat
  trace : List Event

/-- A cursor in front of all tokens. -/
def Cursor.start : Cursor := ⟨0, []⟩

/-- The cursor with one event more. -/
def Cursor.note (c : Cursor) (event : Event) : Cursor := { c with trace := event :: c.trace }

/-- Why a parser with a cursor returns nothing. -/
inductive Halt where
  | error (e : SyntaxError)
  /-- There is no token with this index. -/
  | outOfBounds (index : Nat)
  /-- It may not go deeper. -/
  | tooDeep

/-- A step of a parser with a cursor. -/
abbrev Walk := EStateM Halt Cursor

section

variable (tokens : List Token)

/-- The token with this index. -/
def Walk.token (index : Nat) : Walk Token := fun c =>
  match tokens[index]? with
  | some t => .ok t (c.note (.looked index))
  | none => .error (.outOfBounds index) c

/-- The token under the cursor, or the last one. -/
def Walk.peek : Walk Token := fun c =>
  token tokens (min c.position (tokens.length - 1)) c

/-- The token in front of the cursor. -/
def Walk.previous : Walk Token := fun c => token tokens (c.position - 1) c

/-- The cursor is at an end marker. -/
def Walk.atEnd : Walk Bool := do
  let t ← peek tokens
  pure t.isEnd

/-- Move the cursor, unless it is at an end marker, and look back. -/
def Walk.advance : Walk Token := do
  if ← atEnd tokens then
    previous tokens
  else
    modify fun c => Cursor.note ⟨c.position + 1, c.trace⟩ (.moved (c.position + 1))
    previous tokens

/-- The kind of the token under the cursor passes the test. An end marker passes none. -/
def Walk.check (p : Kind → Bool) : Walk Bool := do
  if ← atEnd tokens then
    pure false
  else
    let t ← peek tokens
    pure (p t.kind)

/-- The token behind the one under the cursor is of this kind, if there is one. -/
def Walk.checkNext (k : Kind) : Walk Bool := do
  let c ← get
  pure (tokens[c.position + 1]?.any (·.kind == k))

/-- The tokens in a list with a cursor. -/
def indexed : Access Walk where
  atEnd := Walk.atEnd tokens
  take p := do
    if ← Walk.check tokens p then
      let t ← Walk.advance tokens
      pure (some t)
    else
      pure none
  assignment := do
    if ← Walk.check tokens (· == .identifier) then
      if ← Walk.checkNext tokens (.symbol .equal) then
        let name ← Walk.advance tokens
        let _ ← Walk.advance tokens
        pure (some name)
      else
        pure none
    else
      pure none
  fail cause := do
    let t ← Walk.peek tokens
    throw (.error ⟨cause, t⟩)
  parameter x := do
    let start ← Walk.peek tokens
    match ← x with
    | .name t => pure t
    | _ => throw (.error ⟨.parameter, start⟩)
  iteration x := do
    let start ← get
    let a ← x
    modify fun stop => stop.note (.iterated start.position stop.position)
    pure a

/-- The rule with a cursor, at most `n` rules deep. -/
def Rule.walk : Nat → (r : Rule) → Walk r.Tree
  | 0, _ => throw .tooDeep
  | n + 1, r => r.step (indexed tokens) (walk n)

end

/-! ## Single steps -/

namespace Walk

variable {α β : Type} {x : Walk α} {f : α → Walk β} {c d : Cursor}

theorem bind_ok {a : α} (h : x c = .ok a d) : (x >>= f) c = f a d := by
  simp only [bind, EStateM.bind, h]

theorem bind_error {e : Halt} (h : x c = .error e d) : (x >>= f) c = .error e d := by
  simp only [bind, EStateM.bind, h]

end Walk

/-! ## Lists and cursors -/

/-- With an end marker at `first`, only tokens up to it are looked at, the cursor does not pass
it, and an iteration of a loop moves the cursor. -/
def Event.Safe (first : Nat) : Event → Prop
  | looked index => index ≤ first
  | moved position => position ≤ first
  | iterated start stop => start < stop

/-- A cursor that has not passed the end marker at `first`. -/
structure Cursor.Within (first : Nat) (c : Cursor) : Prop where
  position_le : c.position ≤ first
  trace_safe : ∀ event ∈ c.trace, event.Safe first

theorem Cursor.Within.note {first : Nat} {c : Cursor} (h : c.Within first) {event : Event}
    (hevent : event.Safe first) : (c.note event).Within first where
  position_le := h.position_le
  trace_safe := by
    rintro e (_ | ⟨_, he⟩)
    · exact hevent
    · exact h.trace_safe e he

section

variable {us rest : List Token} {stop : Token} {α β : Type}

variable (us stop) in
/-- From the cursor `c`, both steps come to the same, or the first gives up. What is left in
the list is what stands between the cursor and the end marker. -/
inductive Follows (c : Cursor) : Reader.Result α → EStateM.Result Halt Cursor α → Prop
  | gaveUp (r : EStateM.Result Halt Cursor α) : Follows c none r
  | ok {a : α} {left : List Token} {d : Cursor} : left = us.drop d.position →
    c.position ≤ d.position → d.Within us.length → Follows c (some (.ok (a, left))) (.ok a d)
  | error {f : Failure} {d : Cursor} : d.Within us.length →
    Follows c (some (.error f)) (.error (.error (f.blame stop)) d)

variable (us stop) in
/-- A step on lists and a step with a cursor, wherever the cursor is. -/
def Tracks (α : Type) (x : Reader α) (y : Walk α) : Prop :=
  ∀ c : Cursor, c.Within us.length → Follows us stop c (x (us.drop c.position)) (y c)

variable {c : Cursor}

/-- The next token is the one under the cursor. -/
theorem token_of_drop {t : Token} {ts : List Token} {i : Nat} (h : us.drop i = t :: ts) :
    i < us.length ∧ us[i]? = some t ∧ us.drop (i + 1) = ts := by
  have hi : us[i]? = some t := by rw [← List.head?_drop, h, List.head?_cons]
  have htail : us.drop (i + 1) = ts := by rw [← List.tail_drop, h, List.tail_cons]
  exact ⟨(List.getElem?_eq_some_iff.1 hi).1, hi, htail⟩

namespace Walk

/-- Up to the end marker there are tokens. -/
theorem token_eq {i : Nat} (hi : i ≤ us.length) (c : Cursor) :
    token (us ++ stop :: rest) i c = .ok (us[i]?.getD stop) (c.note (.looked i)) := by
  have htoken : (us ++ stop :: rest)[i]? = some (us[i]?.getD stop) := by
    rcases Nat.lt_or_eq_of_le hi with hlt | rfl
    · rw [List.getElem?_append_left hlt, List.getElem?_eq_getElem hlt, Option.getD_some]
    · simp
  simp only [token, htoken]

theorem peek_eq (hc : c.Within us.length) :
    peek (us ++ stop :: rest) c =
      .ok ((us.drop c.position).head?.getD stop) (c.note (.looked c.position)) := by
  have hmin : min c.position ((us ++ stop :: rest).length - 1) = c.position := by
    have := hc.position_le
    simp only [List.length_append, List.length_cons]
    omega
  rw [peek, hmin, token_eq hc.position_le, List.head?_drop]

variable (hus : ∀ t ∈ us, t.kind ≠ .eof) (hstop : stop.kind = .eof)

include hus hstop

theorem atEnd_eq (hc : c.Within us.length) :
    atEnd (us ++ stop :: rest) c =
      .ok (us.drop c.position).isEmpty (c.note (.looked c.position)) := by
  rw [atEnd, bind_ok (peek_eq hc)]
  cases h : us.drop c.position with
  | nil => simp [Token.isEnd, hstop, pure, EStateM.pure]
  | cons t ts =>
    have ht : t.kind ≠ .eof := hus t (List.mem_of_getElem? (token_of_drop h).2.1)
    simp [Token.isEnd, ht, pure, EStateM.pure]

/-- The cursor stays where it is. -/
theorem check_eq (rest : List Token) (hc : c.Within us.length) (p : Kind → Bool) :
    ∃ d : Cursor, check (us ++ stop :: rest) p c =
        .ok ((us.drop c.position).head?.any (p ·.kind)) d ∧
      d.position = c.position ∧ d.Within us.length := by
  have hlook : (c.note (.looked c.position)).Within us.length := hc.note hc.position_le
  rw [check, bind_ok (atEnd_eq hus hstop hc)]
  cases h : us.drop c.position with
  | nil => exact ⟨_, rfl, rfl, hlook⟩
  | cons t ts =>
    have hpeek : peek (us ++ stop :: rest) (c.note (.looked c.position)) =
        .ok t ((c.note (.looked c.position)).note (.looked c.position)) := by
      rw [peek_eq hlook]
      change EStateM.Result.ok ((us.drop c.position).head?.getD stop) _ = _
      rw [h]
      rfl
    exact ⟨_, bind_ok hpeek, rfl, hlook.note hc.position_le⟩

omit hus in
/-- The end marker is of no other kind. -/
theorem checkNext_eq (rest : List Token) (hc : c.position < us.length) {k : Kind}
    (hk : k ≠ .eof) :
    checkNext (us ++ stop :: rest) k c =
      .ok ((us.drop (c.position + 1)).head?.any (·.kind == k)) c := by
  have htoken : (us ++ stop :: rest)[c.position + 1]?.any (·.kind == k) =
      (us.drop (c.position + 1)).head?.any (·.kind == k) := by
    rw [List.head?_drop]
    rcases Nat.lt_or_eq_of_le (Nat.succ_le_of_lt hc) with hlt | heq
    · rw [List.getElem?_append_left hlt]
    · have heq : c.position + 1 = us.length := heq
      simpa [heq, hstop] using hk.symm
  rw [← htoken]
  rfl

/-- In front of the end marker the cursor is moved by one. -/
theorem advance_eq (rest : List Token) (hc : c.Within us.length) {t : Token} {ts : List Token}
    (h : us.drop c.position = t :: ts) :
    ∃ d : Cursor, advance (us ++ stop :: rest) c = .ok t d ∧
      d.position = c.position + 1 ∧ d.Within us.length := by
  obtain ⟨hlt, ht, -⟩ := token_of_drop h
  have hlook : (c.note (.looked c.position)).Within us.length := hc.note hc.position_le
  let moved : Cursor := ⟨c.position + 1, (c.note (.looked c.position)).trace⟩
  let d : Cursor := moved.note (.moved (c.position + 1))
  have hmoved : moved.Within us.length := ⟨hlt, hlook.trace_safe⟩
  have hd : d.Within us.length := hmoved.note hlt
  have hback : token (us ++ stop :: rest) c.position d = _ := token_eq hc.position_le d
  refine ⟨d.note (.looked c.position), ?_, rfl, hd.note hc.position_le⟩
  rw [advance, bind_ok (atEnd_eq hus hstop hc), h]
  change token (us ++ stop :: rest) (c.position + 1 - 1) d = _
  rw [Nat.add_sub_cancel, hback, ht]
  rfl

end Walk

/-! ## One step after the other -/

theorem Follows.after {c d : Cursor} {r : Reader.Result α} {r' : EStateM.Result Halt Cursor α}
    (h : Follows us stop d r r') (hle : c.position ≤ d.position) : Follows us stop c r r' := by
  cases h with
  | gaveUp => exact .gaveUp _
  | ok hleft hle' hd => exact .ok hleft (Nat.le_trans hle hle') hd
  | error hd => exact .error hd

namespace Tracks

theorem bind {x : Reader α} {y : Walk α} {f : α → Reader β} {g : α → Walk β}
    (hxy : Tracks us stop α x y) (hfg : ∀ a, Tracks us stop β (f a) (g a)) :
    Tracks us stop β (x >>= f) (y >>= g) := by
  intro c hc
  have first := hxy c hc
  generalize hx : x (us.drop c.position) = r at first
  generalize hy : y c = r' at first
  cases first with
  | gaveUp =>
    rw [Reader.bind_none hx]
    exact .gaveUp _
  | ok hleft hle hd =>
    rw [Reader.bind_ok hx, Walk.bind_ok hy, hleft]
    exact (hfg _ _ hd).after hle
  | error hd =>
    rw [Reader.bind_error hx, Walk.bind_error hy]
    exact .error hd

theorem fail (cause : SyntaxCause) :
    Tracks us stop α (listed.fail cause) ((indexed (us ++ stop :: rest)).fail cause) := by
  intro c hc
  change Follows us stop c _ ((do
    let t ← Walk.peek (us ++ stop :: rest)
    throw (.error ⟨cause, t⟩) : Walk α) c)
  rw [Walk.bind_ok (Walk.peek_eq hc)]
  exact .error (hc.note hc.position_le)

theorem parameter {x : Reader Expr} {y : Walk Expr} (h : Tracks us stop Expr x y) :
    Tracks us stop Token (listed.parameter x)
      ((indexed (us ++ stop :: rest)).parameter y) := by
  intro c hc
  have hlook : (c.note (.looked c.position)).Within us.length := hc.note hc.position_le
  have inside : Follows us stop c (x (us.drop c.position)) (y (c.note (.looked c.position))) :=
    (h _ hlook).after (Nat.le_refl _)
  change Follows us stop c _ ((do
    let start ← Walk.peek (us ++ stop :: rest)
    match ← y with
    | .name t => pure t
    | _ => throw (.error ⟨.parameter, start⟩) : Walk Token) c)
  rw [Walk.bind_ok (Walk.peek_eq hc)]
  generalize hx : x (us.drop c.position) = r at inside
  generalize hy : y (c.note (.looked c.position)) = r' at inside
  cases inside with
  | gaveUp =>
    simp only [listed, hx]
    exact .gaveUp _
  | @ok e _ d hleft hle hd =>
    rw [Walk.bind_ok hy]
    cases e with
    | name t =>
      rw [parameter_name hx]
      exact .ok hleft hle hd
    | _ =>
      rw [parameter_other hx (by nofun)]
      exact .error hd
  | error hd =>
    rw [parameter_error hx, Walk.bind_error hy]
    exact .error hd

/-- An iteration that reads a token. -/
theorem iteration {x : Reader α} {y : Walk α} (h : Tracks us stop α x y)
    (hshorter : ∀ ts a left, x ts = some (.ok (a, left)) → left.length < ts.length) :
    Tracks us stop α (listed.iteration x) ((indexed (us ++ stop :: rest)).iteration y) := by
  intro c hc
  have inside := h c hc
  change Follows us stop c (x (us.drop c.position)) ((do
    let a ← y
    modify fun stop => Cursor.note stop (.iterated c.position stop.position)
    pure a : Walk α) c)
  generalize hx : x (us.drop c.position) = r at inside ⊢
  generalize hy : y c = r' at inside
  cases inside with
  | gaveUp => exact .gaveUp _
  | @ok a left d hleft hle hd =>
    rw [Walk.bind_ok hy]
    refine .ok hleft hle (hd.note ?_)
    have hlt := hshorter _ _ _ hx
    rw [hleft, List.length_drop, List.length_drop] at hlt
    change c.position < d.position
    omega
  | error hd =>
    rw [Walk.bind_error hy]
    exact .error hd

variable (hus : ∀ t ∈ us, t.kind ≠ .eof) (hstop : stop.kind = .eof)

include hus hstop

theorem take (p : Kind → Bool) :
    Tracks us stop (Option Token) (listed.take p) ((indexed (us ++ stop :: rest)).take p) := by
  intro c hc
  obtain ⟨d, hcheck, hposition, hd⟩ :=
    Walk.check_eq hus hstop rest hc p
  change Follows us stop c _ ((do
    if ← Walk.check (us ++ stop :: rest) p then
      let t ← Walk.advance (us ++ stop :: rest)
      pure (some t)
    else
      pure none : Walk (Option Token)) c)
  have hle : c.position ≤ d.position := Nat.le_of_eq hposition.symm
  cases h : us.drop c.position with
  | nil =>
    rw [h] at hcheck
    rw [Walk.bind_ok hcheck]
    exact .ok (by rw [hposition, h]) hle hd
  | cons t ts =>
    have hcheck : Walk.check (us ++ stop :: rest) p c = .ok (p t.kind) d := by
      rw [hcheck, h]
      rfl
    rw [Walk.bind_ok hcheck]
    cases ht : p t.kind with
    | false =>
      rw [take_of_not (by simpa using ht)]
      exact .ok (by rw [hposition, h]) hle hd
    | true =>
      obtain ⟨e, hadvance, hnext, he⟩ :=
        Walk.advance_eq hus hstop rest hd (hposition.symm ▸ h)
      rw [take_of ht]
      change Follows us stop c _ ((Walk.advance (us ++ stop :: rest) >>= fun t => pure (some t)) d)
      rw [Walk.bind_ok hadvance]
      refine .ok ?_ (by omega) he
      rw [hnext, hposition, (token_of_drop h).2.2]

theorem assignment :
    Tracks us stop (Option Token) listed.assignment
      (indexed (us ++ stop :: rest)).assignment := by
  intro c hc
  obtain ⟨d, hcheck, hposition, hd⟩ :=
    Walk.check_eq hus hstop rest hc (· == .identifier)
  change Follows us stop c _ ((do
    if ← Walk.check (us ++ stop :: rest) (· == .identifier) then
      if ← Walk.checkNext (us ++ stop :: rest) (.symbol .equal) then
        let name ← Walk.advance (us ++ stop :: rest)
        let _ ← Walk.advance (us ++ stop :: rest)
        pure (some name)
      else
        pure none
    else
      pure none : Walk (Option Token)) c)
  have hle : c.position ≤ d.position := Nat.le_of_eq hposition.symm
  rw [Walk.bind_ok hcheck]
  cases h : us.drop c.position with
  | nil => exact .ok (by rw [hposition, h]) hle hd
  | cons x ts =>
    obtain ⟨hlt, -, hts⟩ := token_of_drop (hposition.symm ▸ h : us.drop d.position = x :: ts)
    have hnone : (∀ q us, ts = q :: us → x.kind = .identifier → q.kind ≠ .symbol .equal) →
        Follows us stop c (listed.assignment (x :: ts)) (.ok none d) := by
      intro hne
      rw [assignment_of_not (by rintro _ q vs ⟨⟩; exact hne q vs rfl)]
      exact .ok (by rw [hposition, h]) hle hd
    by_cases hx : x.kind = .identifier
    · have hcheckNext := Walk.checkNext_eq hstop rest hlt (k := .symbol .equal) nofun
      rw [hts] at hcheckNext
      have htrue : ((x :: ts).head?.any (·.kind == .identifier)) = true := by simp [hx]
      rw [htrue, if_pos rfl, Walk.bind_ok hcheckNext]
      cases ts with
      | nil => exact hnone nofun
      | cons q vs =>
        by_cases hq : q.kind = .symbol .equal
        · obtain ⟨e, hname, he_position, he⟩ :=
            Walk.advance_eq hus hstop rest hd (hposition.symm ▸ h)
          have hequal : us.drop e.position = q :: vs := by rw [he_position, hts]
          obtain ⟨k, hk, hk_position, hkWithin⟩ :=
            Walk.advance_eq hus hstop rest he hequal
          have htrue : ((q :: vs).head?.any (·.kind == .symbol .equal)) = true := by simp [hq]
          rw [htrue, if_pos rfl, Walk.bind_ok hname, Walk.bind_ok hk, assignment_of hx hq]
          refine .ok ?_ (by omega) hkWithin
          rw [hk_position, (token_of_drop hequal).2.2]
        · have hfalse : ((q :: vs).head?.any (·.kind == .symbol .equal)) = false := by simp [hq]
          rw [hfalse]
          exact hnone (by rintro _ _ ⟨⟩ _; exact hq)
    · have hfalse : ((x :: ts).head?.any (·.kind == .identifier)) = false := by simp [hx]
      rw [hfalse]
      exact hnone fun _ _ _ hx' => absurd hx' hx

end Tracks

theorem relates_tracks (hus : ∀ t ∈ us, t.kind ≠ .eof) (hstop : stop.kind = .eof)
    (rest : List Token) :
    Relates listed (indexed (us ++ stop :: rest)) (Tracks us stop) where
  pure _ _ hc := .ok rfl (Nat.le_refl _) hc
  bind := Tracks.bind
  atEnd c hc := by
    change Follows us stop c _ (Walk.atEnd _ c)
    rw [Walk.atEnd_eq hus hstop hc]
    exact .ok rfl (Nat.le_refl _) (hc.note hc.position_le)
  take p _ := Tracks.take hus hstop p
  fail := Tracks.fail
  parameter := Tracks.parameter

/-! ## All rules -/

/-- What a rule reads, it takes off the list. -/
theorem Rule.shorter_of_read {r : Rule} (hr : r.Consumes) {n : Nat} (ts : List Token)
    (a : r.Tree) (left : List Token) (h : r.read n ts = some (.ok (a, left))) :
    left.length < ts.length := by
  rcases r.read_cases n ts with hnone | hrun
  · rw [hnone] at h
    cases h
  · have h : r.run ts = .ok (a, left) := Option.some.inj (hrun.symm.trans h)
    cases r with
    | program | pipes | branches | operators | calls => exact hr.elim
    | _ => exact length_lt_of_pair h

/-- With a cursor the rules do what they do on lists. -/
theorem Rule.tracks_walk (hus : ∀ t ∈ us, t.kind ≠ .eof) (hstop : stop.kind = .eof)
    (rest : List Token) (n : Nat) (r : Rule) :
    Tracks us stop r.Tree (r.read n) (r.walk (us ++ stop :: rest) n) := by
  have hrelates := relates_tracks hus hstop rest
  induction n generalizing r with
  | zero => exact fun _ _ => .gaveUp _
  | succ n ih =>
    exact hrelates.step ih (fun r hr => .iteration (ih r) (Rule.shorter_of_read hr))
      (hrelates.assignmentStep ih (Tracks.assignment hus hstop)) r

end

/-! ## Without an end marker -/

theorem Walk.bind_eq_ok {α β : Type} {x : Walk α} {f : α → Walk β} {c d : Cursor} {b : β}
    (h : (x >>= f) c = .ok b d) : ∃ a e, x c = .ok a e ∧ f a e = .ok b d := by
  cases hx : x c with
  | ok a e => exact ⟨a, e, rfl, (Walk.bind_ok hx).symm.trans h⟩
  | error e c' => cases (Walk.bind_error hx).symm.trans h

theorem Walk.mem_of_token {ts : List Token} {i : Nat} {c d : Cursor} {t : Token}
    (h : token ts i c = .ok t d) : t ∈ ts := by
  unfold token at h
  split at h
  · next u hu =>
    cases h
    exact List.mem_of_getElem? hu
  · cases h

/-- The statements of a program end at an end marker only. -/
theorem walk_program_ne_ok {ts : List Token} (hts : ∀ t ∈ ts, t.kind ≠ .eof) (n : Nat) :
    ∀ (c : Cursor) (p : Program) (d : Cursor), Rule.program.walk ts n c ≠ .ok p d := by
  induction n with
  | zero => exact nofun
  | succ n ih =>
    intro c p d h
    obtain ⟨b, c', hend, h⟩ := Walk.bind_eq_ok h
    have hfalse : b = false := by
      obtain ⟨t, e, htoken, hb⟩ := Walk.bind_eq_ok hend
      have ht := hts t (Walk.mem_of_token htoken)
      cases hb
      simpa [Token.isEnd] using ht
    subst hfalse
    obtain ⟨_, c', -, h⟩ := Walk.bind_eq_ok h
    obtain ⟨p', d', hrest, -⟩ := Walk.bind_eq_ok h
    exact ih _ _ _ hrest

/-! ## With an end marker -/

/-- With an end marker, a parser with a cursor comes to what the parser on lists comes to. -/
theorem walk_program_eq {us : List Token} {stop : Token} (hus : ∀ t ∈ us, t.kind ≠ .eof)
    (hstop : stop.kind = .eof) (rest : List Token) {n : Nat} (hn : Rule.program.depth us < n) :
    ∃ c : Cursor, (∀ event ∈ c.trace, event.Safe us.length) ∧
      Rule.program.walk (us ++ stop :: rest) n .start =
        match parse (us ++ stop :: rest) with
        | .ok p => .ok p c
        | .error e => .error (.error e) c := by
  have hstart : Cursor.start.Within us.length := ⟨Nat.zero_le _, nofun⟩
  have htracks := Rule.tracks_walk hus hstop rest n .program _ hstart
  rw [parse_append_end hus hstop]
  change Follows us stop _ (Rule.program.read n us) _ at htracks
  rw [Rule.read_eq hn] at htracks
  change Follows us stop _ (some ((Parser.program us).map (·, []))) _ at htracks
  generalize Parser.program us = r at htracks
  generalize Rule.program.walk (us ++ stop :: rest) n .start = r' at htracks
  cases r with
  | ok p =>
    cases htracks with
    | ok _ _ hd => exact ⟨_, hd.trace_safe, rfl⟩
  | error f =>
    cases htracks with
    | error hd => exact ⟨_, hd.trace_safe, rfl⟩

end Parser

/-- Take any tokens with an end marker among them. A parser with a cursor, when it may go deep
enough, comes to the same program or to the same error as `parse`; it looks at tokens up to
the first end marker only, does not move the cursor past it, and moves the cursor in every
iteration of a loop. What stands behind the marker makes no difference. Without an end marker,
neither parser ever returns a program, unless there are no tokens at all. -/
theorem parse_safe (ts : List Token) :
    ((∃ t ∈ ts, t.kind = .eof) →
      ∃ first stop, ts[first]? = some stop ∧ stop.kind = .eof ∧
        (∀ t ∈ ts.take first, t.kind ≠ .eof) ∧ parse (ts.take (first + 1)) = parse ts ∧
        ∃ depth, ∀ n ≥ depth, ∃ c : Parser.Cursor, (∀ event ∈ c.trace, event.Safe first) ∧
          Parser.Rule.program.walk ts n .start =
            match parse ts with
            | .ok p => .ok p c
            | .error e => .error (.error e) c) ∧
      (ts ≠ [] → (∀ t ∈ ts, t.kind ≠ .eof) →
        (∀ p, parse ts ≠ .ok p) ∧
          ∀ n p c, Parser.Rule.program.walk ts n .start ≠ .ok p c) := by
  constructor
  · intro h
    obtain ⟨us, stop, rest, rfl, hus, hstop⟩ := exists_eq_append_end h
    have htake : (us ++ stop :: rest).take (us.length + 1) = us ++ [stop] :=
      List.take_length_add_append 1
    have hcut : parse (us ++ [stop]) = parse (us ++ stop :: rest) := by
      rw [parse_append_end hus hstop, parse_append_end hus hstop]
    refine ⟨us.length, stop, by simp, hstop, by simpa using hus, htake ▸ hcut,
      Parser.Rule.program.depth us + 1, fun n hn => ?_⟩
    exact Parser.walk_program_eq hus hstop rest hn
  · intro hne hts
    exact ⟨parse_ne_ok hne hts, fun n => Parser.walk_program_ne_ok hts n _⟩

/-- Tokens with an end marker in the middle, and tokens with none. -/
theorem parse_safe_middle :
    let us : List Token := [⟨.keyword .nilWord, "nil", 1⟩, ⟨.symbol .semicolon, ";", 1⟩]
    let ts : List Token := us ++ [⟨.eof, "x", 1⟩, ⟨.symbol .leftParen, "x", 7⟩]
    (∃ first stop, ts[first]? = some stop ∧ stop.kind = .eof ∧
        (∀ t ∈ ts.take first, t.kind ≠ .eof) ∧ parse (ts.take (first + 1)) = parse ts ∧
        ∃ n, ∃ c : Parser.Cursor, (∀ event ∈ c.trace, event.Safe first) ∧
          Parser.Rule.program.walk ts n .start = .ok [.expression (.literal .nil)] c) ∧
      ∀ n p c, Parser.Rule.program.walk us n .start ≠ .ok p c := by
  intro us ts
  have hend : parse ts = (Parser.program us).mapError (·.blame ⟨.eof, "x", 1⟩) :=
    parse_append_end (by decide) rfl _
  have hprogram : Parser.program us = .ok [.expression (.literal .nil)] := by cbv
  have hparse : parse ts = .ok [.expression (.literal .nil)] := by
    rw [hend, hprogram]
    rfl
  obtain ⟨first, stop, hfirst, hstop, hbefore, hcut, depth, hwalk⟩ :=
    (parse_safe ts).1 ⟨⟨.eof, "x", 1⟩, by decide, rfl⟩
  obtain ⟨c, hc, hrun⟩ := hwalk depth (Nat.le_refl _)
  rw [hparse] at hrun
  exact ⟨⟨first, stop, hfirst, hstop, hbefore, hcut, depth, c, hc, hrun⟩,
    ((parse_safe us).2 (by decide) (by decide)).2⟩

end PipeLang
