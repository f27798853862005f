import PipeLang.Interpreter.State
import PipeLang.Proofs.Store.WellFormed

/-!
# The nearest declaration

Frames that are made one inside another are a forest (`Store.Built.forest`), in which a name
means what the nearest declaration outwards says. Many frames share the frame around them, so
one operation shows from many frames : a declaration from those that see the frame past no
other declaration of the name (`Store.Sees`), an assignment from those whose nearest
declaration is the one that was assigned to. No other lookup changes (`Store.Shows`).

Both operations change single frames. What that does to a search is followed along the chain
of frames (`Store.Searches.bind`, `Store.Searches.write`).
-/

namespace PipeLang

namespace Store

/-! ## Frames made one after the other -/

/-- Frames that were made from nothing, with declarations and assignments between. Operations
that fail leave the frames as they are. -/
inductive Built : Store → Prop where
  | empty : Built .empty
  | outermost {s : Store} : Built s → Built (s.grow none)
  | inside {s : Store} {a : FrameId} : Built s → a < s.size → Built (s.grow (some a))
  | declare {s t : Store} {a : FrameId} {x : Token} {b : Binding} : Built s → a < s.size →
    s.declare a x b = .ok t → Built t
  | assign {s t : Store} {a : FrameId} {x : Token} {v : Value} : Built s → a < s.size →
    s.assign a x v = .ok t → Built t

variable {s t : Store} {a c owner : FrameId} {x y : String} {b p : Binding} {v : Value}
  {f : Frame} {r : Option (FrameId × Binding)}

/-- The frame that was `f`, when a name was bound in one of the frames. -/
theorem frames_bind_of (hf : s.frames[a]? = some f) (c : FrameId) (x : String) (b : Binding) :
    ∃ g : Frame, (s.bind c x b).frames[a]? = some g ∧ g.enclosing = f.enclosing ∧
      ∀ y, g.binding? y = if a = c ∧ y = x then some b else f.binding? y := by
  rw [frames_bind, hf]
  by_cases ha : a = c
  · refine ⟨f.bind x b, by rw [if_pos ha, Option.map_some], rfl, fun y => ?_⟩
    simp [Frame.binding?_bind, ha]
  · exact ⟨f, if_neg ha, rfl, fun y => (if_neg fun h => ha h.1).symm⟩

/-- The frame that is `g` when a name was bound in one of the frames. -/
theorem frames_of_bind {g : Frame} (hg : (s.bind c x b).frames[a]? = some g) :
    ∃ f : Frame, s.frames[a]? = some f ∧ g.enclosing = f.enclosing ∧
      ∀ y, g.binding? y = if a = c ∧ y = x then some b else f.binding? y := by
  have ha : a < s.size := size_bind s c x b ▸ lt_size_of_frames _ a hg
  have hf := Array.getElem?_eq_getElem ha
  obtain ⟨g', hg', hsame⟩ := frames_bind_of hf c x b
  obtain rfl := Option.some.inj (hg.symm.trans hg')
  exact ⟨_, hf, hsame⟩

/-- The frame that was `f`, when a name has got another value in one of the frames. -/
theorem frames_write_of (hf : s.frames[a]? = some f) (c : FrameId) (x : String) (v : Value) :
    ∃ g : Frame, (s.write c x v).frames[a]? = some g ∧ g.enclosing = f.enclosing ∧
      ∀ y, g.binding? y =
        (f.binding? y).map fun b => if a = c ∧ y = x then { b with value := v } else b := by
  rw [frames_write, hf]
  by_cases ha : a = c
  · refine ⟨f.write x v, by rw [if_pos ha, Option.map_some], rfl, fun y => ?_⟩
    simp [Frame.binding?_write, ha]
  · refine ⟨f, if_neg ha, rfl, fun y => ?_⟩
    simp [ha]

namespace Forest

theorem empty : Store.empty.Forest where
  lt_of_encloses := by
    rintro a c ⟨f, hf, -⟩
    simp [Store.empty] at hf

theorem grow (h : s.Forest) {enclosing : Option FrameId}
    (hin : ∀ c, enclosing = some c → c < s.size) : (s.grow enclosing).Forest where
  lt_of_encloses := by
    rintro a c ⟨f, hf, hc⟩
    rw [frames_grow] at hf
    split at hf
    · next ha =>
      obtain rfl := Option.some.inj hf
      exact ha ▸ hin c hc
    · exact h.lt_of_encloses ⟨f, hf, hc⟩

/-- An operation on single frames moves no frame. -/
theorem of_links (h : s.Forest) (hsize : t.size = s.size)
    (hlinks : ∀ (a : FrameId) (f : Frame), s.frames[a]? = some f →
      ∃ g : Frame, t.frames[a]? = some g ∧ g.enclosing = f.enclosing) : t.Forest where
  lt_of_encloses := by
    rintro a c ⟨g, hg, hc⟩
    have hf := Array.getElem?_eq_getElem (hsize ▸ t.lt_size_of_frames a hg : a < s.size)
    obtain ⟨g', hg', hlink⟩ := hlinks a _ hf
    obtain rfl := Option.some.inj (hg.symm.trans hg')
    exact h.lt_of_encloses ⟨_, hf, hlink.symm.trans hc⟩

theorem bind (h : s.Forest) (c : FrameId) (x : String) (b : Binding) : (s.bind c x b).Forest := by
  refine h.of_links (size_bind ..) fun a f hf => ?_
  obtain ⟨g, hg, hlink, -⟩ := frames_bind_of hf c x b
  exact ⟨g, hg, hlink⟩

theorem write (h : s.Forest) (c : FrameId) (x : String) (v : Value) : (s.write c x v).Forest := by
  refine h.of_links (size_write ..) fun a f hf => ?_
  obtain ⟨g, hg, hlink, -⟩ := frames_write_of hf c x v
  exact ⟨g, hg, hlink⟩

end Forest

theorem Built.forest (h : s.Built) : s.Forest := by
  induction h with
  | empty => exact .empty
  | outermost _ ih => exact ih.grow nofun
  | inside _ ha ih =>
    refine ih.grow fun c hc => ?_
    obtain rfl := Option.some.inj hc
    exact ha
  | declare _ _ ht ih =>
    obtain ⟨-, rfl⟩ := (declare_eq_ok_iff _ _).1 ht
    exact ih.bind ..
  | assign _ _ ht ih =>
    obtain ⟨_, _, -, -, rfl⟩ := (assign_eq_ok_iff _ _).1 ht
    exact ih.write ..

theorem Built.bind (h : s.Built) (ha : a < s.size) (hnew : s.binding? a x = none) (b : Binding) :
    (s.bind a x b).Built := by
  have hdeclared : s.declare a ⟨.identifier, x, 1⟩ b = .ok (s.bind a x b) :=
    (declare_eq_ok_iff a b).2 ⟨hnew, rfl⟩
  exact .declare h ha hdeclared

/-! ## Searches -/

/-- The frame `owner` is `a` or around it, and no frame on the way to it declares the name. -/
inductive Sees (s : Store) (x : String) : FrameId → FrameId → Prop
  | here {a : FrameId} : Sees s x a a
  | outer {a outer owner : FrameId} {f : Frame} : s.frames[a]? = some f → f.binding? x = none →
    f.enclosing = some outer → Sees s x outer owner → Sees s x a owner

/-- The nearest declaration of the name, seen from the frame `a`, is in `owner`. -/
def Nearest (s : Store) (x : String) (a owner : FrameId) : Prop :=
  ∃ b, s.Searches x a (some (owner, b))

/-- What a lookup answers when the search has come to an end. -/
def outcome (name : Token) : Option (FrameId × Binding) → Except Fault Value
  | some (_, b) => .ok b.value
  | none => .error (.undefined name)

theorem Forest.read_eq {name : Token} (h : s.Forest) (hr : s.Searches name.lexeme a r) :
    s.read a name = outcome name r := by
  rw [read, h.find?_of_searches hr]
  cases r <;> rfl

namespace Searches

theorem lt_size (h : s.Searches x a r) : a < s.size := by
  cases h with
  | here hf => exact s.lt_size_of_frames a hf
  | outer hf => exact s.lt_size_of_frames a hf
  | undefined hf => exact s.lt_size_of_frames a hf

theorem binding?_eq (h : s.Searches x a (some (owner, b))) : s.binding? owner x = some b := by
  generalize hr : some (owner, b) = r at h
  induction h with
  | here hf hb =>
    cases hr
    exact (s.binding?_eq_some_iff ..).2 ⟨_, hf, hb⟩
  | outer _ _ _ _ ih => exact ih hr
  | undefined => cases hr

/-- A search that does not come past the frame is not changed by a name that is bound there, and
neither is a search for another name. -/
theorem bind (h : s.Searches y a r) (hother : y = x → ¬ s.Sees x a c) :
    (s.bind c x b).Searches y a r := by
  -- As long as the frame `c` cannot be seen, the search has not come to it.
  have hsame {a : FrameId} (hother : y = x → ¬ s.Sees x a c) : ¬ (a = c ∧ y = x) := by
    rintro ⟨rfl, hy⟩
    exact hother hy .here
  induction h with
  | here hf hb =>
    obtain ⟨g, hg, -, hbinding⟩ := frames_bind_of hf c x b
    exact .here hg (by rw [hbinding, if_neg (hsame hother), hb])
  | outer hf hb houter _ ih =>
    obtain ⟨g, hg, hlink, hbinding⟩ := frames_bind_of hf c x b
    refine .outer hg (by rw [hbinding, if_neg (hsame hother), hb]) (hlink.trans houter) (ih ?_)
    rintro rfl hsees
    exact hother rfl (.outer hf hb houter hsees)
  | undefined hf hb houter =>
    obtain ⟨g, hg, hlink, hbinding⟩ := frames_bind_of hf c x b
    exact .undefined hg (by rw [hbinding, if_neg (hsame hother), hb]) (hlink.trans houter)

/-- A search finds a name with its new value, if it finds it in the frame where that was
written. -/
theorem write (h : s.Searches y a r) (owner : FrameId) (x : String) (v : Value) :
    (s.write owner x v).Searches y a
      (r.map fun (o, b) => (o, if o = owner ∧ y = x then { b with value := v } else b)) := by
  induction h with
  | here hf hb =>
    obtain ⟨g, hg, -, hbinding⟩ := frames_write_of hf owner x v
    exact .here hg (by rw [hbinding, hb, Option.map_some])
  | outer hf hb houter _ ih =>
    obtain ⟨g, hg, hlink, hbinding⟩ := frames_write_of hf owner x v
    exact .outer hg (by rw [hbinding, hb, Option.map_none]) (hlink.trans houter) ih
  | undefined hf hb houter =>
    obtain ⟨g, hg, hlink, hbinding⟩ := frames_write_of hf owner x v
    exact .undefined hg (by rw [hbinding, hb, Option.map_none]) (hlink.trans houter)

/-- What is found in the frame where a name was bound was seen from there before. -/
theorem sees_of_bind (h : (s.bind c x b).Searches x a (some (c, p))) : p = b ∧ s.Sees x a c := by
  generalize hr : some (c, p) = r at h
  induction h with
  | @here a g d hg hd =>
    obtain ⟨rfl, rfl⟩ := Prod.mk.inj (Option.some.inj hr)
    obtain ⟨_, -, -, hbinding⟩ := frames_of_bind hg
    rw [hbinding, if_pos ⟨rfl, rfl⟩] at hd
    exact ⟨(Option.some.inj hd).symm, .here⟩
  | @outer a outer g _ hg hnone houter _ ih =>
    obtain ⟨hp, hsees⟩ := ih hr
    obtain ⟨f, hf, hlink, hbinding⟩ := frames_of_bind hg
    rw [hbinding] at hnone
    split at hnone
    · cases hnone
    · exact ⟨hp, .outer hf hnone (hlink.symm.trans houter) hsees⟩
  | undefined => cases hr

end Searches

/-- From where the frame was seen, a name that is bound in it is found. -/
theorem Sees.bind (h : s.Sees x a c) (hc : c < s.size) (b : Binding) :
    (s.bind c x b).Searches x a (some (c, b)) := by
  induction h with
  | @here c =>
    obtain ⟨g, hg, -, hbinding⟩ := frames_bind_of (Array.getElem?_eq_getElem hc) c x b
    exact .here hg (by rw [hbinding, if_pos ⟨rfl, rfl⟩])
  | @outer a outer c f hf hnone houter _ ih =>
    obtain ⟨g, hg, hlink, hbinding⟩ := frames_bind_of hf c x b
    by_cases ha : a = c
    · subst ha
      exact .here hg (by rw [hbinding, if_pos ⟨rfl, rfl⟩])
    · exact .outer hg (by rw [hbinding, if_neg fun h => ha h.1, hnone]) (hlink.trans houter) (ih hc)

theorem searches_bind_iff (hc : c < s.size) :
    (s.bind c x b).Searches x a (some (c, p)) ↔ p = b ∧ s.Sees x a c := by
  constructor
  · exact Searches.sees_of_bind
  · rintro ⟨rfl, hsees⟩
    exact hsees.bind hc p

/-- A value that is written moves no declaration. -/
theorem Forest.nearest_write_iff (h : s.Forest) {o : FrameId} :
    (s.write owner x v).Nearest y a o ↔ s.Nearest y a o := by
  constructor
  · rintro ⟨p, hp⟩
    -- Before the value was written there was a search too, and this is what became of it.
    have hs : s.Searches y a (s.find? a y) := h.searches (size_write s owner x v ▸ hp.lt_size)
    have hwritten := (h.write owner x v).searches_unique (hs.write owner x v) hp
    obtain ⟨⟨o', b⟩, hfind, heq⟩ := Option.map_eq_some_iff.1 hwritten
    obtain ⟨rfl, -⟩ := Prod.mk.inj heq
    exact ⟨b, hfind ▸ hs⟩
  · rintro ⟨b, hb⟩
    exact ⟨_, hb.write owner x v⟩

/-! ## What one operation shows -/

/-- From all frames whose nearest declaration of `x` is the one in `owner`, the name has the
value `v` in `t`. Every other lookup is as it was in `s`, whether it succeeds or fails. -/
structure Shows (s t : Store) (owner : FrameId) (x : String) (v : Value) : Prop where
  there : ∀ (a : FrameId) (name : Token), name.lexeme = x → t.Nearest x a owner →
    t.read a name = .ok v
  elsewhere : ∀ a < s.size, ∀ name : Token, (name.lexeme = x → ¬ t.Nearest x a owner) →
    t.read a name = s.read a name

theorem Forest.shows_bind (h : s.Forest) (hc : c < s.size) (x : String) (b : Binding) :
    s.Shows (s.bind c x b) c x b.value where
  there := by
    rintro a name rfl ⟨p, hp⟩
    obtain ⟨rfl, -⟩ := (searches_bind_iff hc).1 hp
    exact (h.bind ..).read_eq hp
  elsewhere a ha name hother := by
    have hs : s.Searches name.lexeme a (s.find? a name.lexeme) := h.searches ha
    have ht : (s.bind c x b).Searches name.lexeme a (s.find? a name.lexeme) :=
      hs.bind fun hname hsees => hother hname ⟨b, hsees.bind hc b⟩
    rw [(h.bind c x b).read_eq ht, h.read_eq hs]

theorem Forest.shows_write (h : s.Forest) (owner : FrameId) (x : String) (v : Value) :
    s.Shows (s.write owner x v) owner x v where
  there := by
    rintro a name rfl ⟨p, hp⟩
    have hbinding := hp.binding?_eq
    rw [binding?_write] at hbinding
    obtain ⟨b, -, rfl⟩ := Option.map_eq_some_iff.1 hbinding
    rw [(h.write ..).read_eq hp, outcome, if_pos ⟨rfl, rfl⟩]
  elsewhere a ha name hother := by
    have hs : s.Searches name.lexeme a (s.find? a name.lexeme) := h.searches ha
    have ht := hs.write owner x v
    rw [(h.write owner x v).read_eq ht, h.read_eq hs]
    cases hfind : s.find? a name.lexeme with
    | none => rfl
    | some found =>
      obtain ⟨o, b⟩ := found
      rw [hfind, Option.map_some] at ht
      rw [Option.map_some, outcome, outcome, if_neg]
      rintro ⟨rfl, hname⟩
      exact hother hname ⟨_, hname ▸ ht⟩

theorem Forest.assign_ok_iff {name : Token} (h : s.Forest) (ha : a < s.size) :
    (∃ t, s.assign a name v = .ok t) ↔
      ∃ owner b, s.Searches name.lexeme a (some (owner, b)) ∧ b.mutable = true := by
  simp only [assign_eq_ok_iff, h.searches_iff ha]
  constructor
  · rintro ⟨_, owner, b, hfind, hmutable, -⟩
    exact ⟨owner, b, hfind, hmutable⟩
  · rintro ⟨owner, b, hfind, hmutable⟩
    exact ⟨_, owner, b, hfind, hmutable, rfl⟩

/-- In frames that were made in any way, a lookup comes to the nearest declaration or to the end
of the chain. A name can be declared in a frame if the frame itself does not declare it. It
can be assigned to if its nearest declaration is mutable, whatever is declared further out.
Both show from the frames for which that declaration is now the nearest, and nothing else
changes. An operation that fails changes nothing at all. -/
theorem nearest_declaration (hs : s.Built) (ha : a < s.size) (name : Token) (b : Binding)
    (v : Value) :
    (∃ r, s.Searches name.lexeme a r ∧ s.read a name = outcome name r) ∧
      ((∃ t, s.declare a name b = .ok t) ↔ s.binding? a name.lexeme = none) ∧
      (∀ t, s.declare a name b = .ok t → s.Shows t a name.lexeme b.value ∧
        ∀ c p, t.Searches name.lexeme c (some (a, p)) ↔ p = b ∧ s.Sees name.lexeme c a) ∧
      ((∃ t, s.assign a name v = .ok t) ↔
        ∃ owner p, s.Searches name.lexeme a (some (owner, p)) ∧ p.mutable = true) ∧
      (∀ t, s.assign a name v = .ok t → ∃ owner, s.Nearest name.lexeme a owner ∧
        s.Shows t owner name.lexeme v ∧ ∀ x c o, t.Nearest x c o ↔ s.Nearest x c o) ∧
      ∀ i : Interpreter, (∀ e j, Run.declareIn a name b i = .error e j → j = i) ∧
        ∀ e j, Run.assign name v i = .error e j → j = i := by
  have hforest := hs.forest
  have hsearch : s.Searches name.lexeme a (s.find? a name.lexeme) := hforest.searches ha
  refine ⟨⟨_, hsearch, hforest.read_eq hsearch⟩, ?_, ?_, hforest.assign_ok_iff ha, ?_, ?_⟩
  · simp [declare_eq_ok_iff]
  · intro t ht
    obtain ⟨-, rfl⟩ := (declare_eq_ok_iff a b).1 ht
    exact ⟨hforest.shows_bind ha name.lexeme b, fun c p => searches_bind_iff ha⟩
  · intro t ht
    obtain ⟨owner, p, hfind, -, rfl⟩ := (assign_eq_ok_iff a v).1 ht
    exact ⟨owner, ⟨p, hfind ▸ hsearch⟩, hforest.shows_write owner name.lexeme v,
      fun x c o => hforest.nearest_write_iff⟩
  · intro i
    refine ⟨fun e j hfailed => ?_, fun e j hfailed => ?_⟩
    · unfold Run.declareIn at hfailed
      split at hfailed <;> cases hfailed
      rfl
    · unfold Run.assign at hfailed
      split at hfailed <;> cases hfailed
      rfl

/-- A mutable name that is declared once more, immutably, in one of the frames inside. -/
theorem nearest_declaration_shadowed :
    let x : Token := ⟨.identifier, "x", 1⟩
    let outermost := (Store.empty.grow none).bind 0 "x" ⟨true, .nil⟩
    let s := (((outermost.grow (some 0)).bind 1 "x" ⟨false, .nil⟩).grow (some 1)).grow (some 0)
    s.Built ∧ 2 < s.size ∧ 3 < s.size ∧ (¬ ∃ t, s.assign 2 x (.boolean true) = .ok t) ∧
      ∃ t, s.assign 3 x (.boolean true) = .ok t ∧ t.read 0 x = .ok (.boolean true) ∧
        t.read 3 x = .ok (.boolean true) ∧ t.read 2 x = .ok .nil := by
  intro x outermost s
  have houtermost : outermost.Built := Built.bind (.outermost .empty) (by decide) rfl _
  have hinner : ((outermost.grow (some 0)).bind 1 "x" ⟨false, .nil⟩).Built :=
    Built.bind (.inside houtermost (by decide)) (by decide) rfl _
  have hs : s.Built := .inside (.inside hinner (by decide)) (by decide)
  have hlt : 2 < s.size ∧ 3 < s.size := by decide
  have hroot : s.Searches "x" 0 (some (0, ⟨true, .nil⟩)) := .here rfl rfl
  have hsibling : s.Searches "x" 3 (some (0, ⟨true, .nil⟩)) := .outer rfl rfl rfl hroot
  have hshadowed : s.Searches "x" 2 (some (1, ⟨false, .nil⟩)) :=
    .outer rfl rfl rfl (.here rfl rfl)
  obtain ⟨-, -, -, hblocked, -⟩ := nearest_declaration hs hlt.1 x ⟨false, .nil⟩ (.boolean true)
  obtain ⟨-, -, -, hallowed, hshows, -⟩ :=
    nearest_declaration hs hlt.2 x ⟨false, .nil⟩ (.boolean true)
  obtain ⟨t, ht⟩ := hallowed.2 ⟨_, _, hsibling, rfl⟩
  obtain ⟨owner, ⟨p, hp⟩, hshown, hnearest⟩ := hshows t ht
  cases hs.forest.searches_unique hp hsibling
  refine ⟨hs, hlt.1, hlt.2, ?_, t, ht, ?_, ?_, ?_⟩
  · rw [hblocked]
    rintro ⟨owner, q, hq, hmutable⟩
    cases hs.forest.searches_unique hq hshadowed
    cases hmutable
  · exact hshown.there 0 x rfl ((hnearest ..).2 ⟨_, hroot⟩)
  · exact hshown.there 3 x rfl ((hnearest ..).2 ⟨_, hsibling⟩)
  · have hother : ¬ t.Nearest "x" 2 0 := by
      intro hzero
      obtain ⟨q, hq⟩ := (hnearest ..).1 hzero
      cases hs.forest.searches_unique hq hshadowed
    have hread : s.read 2 x = outcome x (some (1, ⟨false, .nil⟩)) := hs.forest.read_eq hshadowed
    exact (hshown.elsewhere 2 hlt.1 x fun _ => hother).trans hread

end Store

end PipeLang
