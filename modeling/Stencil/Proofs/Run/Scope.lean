import Stencil.Proofs.Document.Tokens
import Stencil.Proofs.Run.Point

/-!
# Scopes

Which values the stacks hold at each point of a run.

**Invariant.**  A point is `Scoped` over some loops that were entered before: the loops that are
being run lead down the tree of the document, the tasks that are left are those of their bodies,
loop inside loop (`Document.Pending`), and the stack of every name but the register holds the
current values of the counters of that name.  The register is empty unless an echo tag is being
evaluated.

**Argument.**  A step keeps the invariant (`scoped_step`).  Only a loop that is entered, counts on
or ends changes a stack other than the register, and it finds its own counter on top, since the
loops inside it have ended.

**Results.**
* `Document.named_of_parse`: in a document that was read, no counter has the name of the register.
* `scoped_run`: the invariant at every point of a run.
-/

namespace Stencil

namespace Frame

/-- The current values of the counters of a name, innermost first. -/
def values (x : Text) (frames : List Frame) : List Value :=
  (frames.filter fun f => f.loop.counter = x).map fun f => .number f.value

/-- The stacks that hold the current values of the counters, and nothing else. -/
def store (frames : List Frame) : NamedStacks :=
  frames.foldr (fun f s => s.push f.loop.counter (.number f.value)) .empty

@[simp] theorem values_nil (x : Text) : values x [] = [] := rfl

theorem values_cons (x : Text) (f : Frame) (outer : List Frame) :
    values x (f :: outer) =
      if x = f.loop.counter then .number f.value :: values x outer else values x outer := by
  by_cases h : f.loop.counter = x
  · simp [values, h]
  · simp [values, h, Ne.symm h]

theorem values_eq_nil_iff (x : Text) (frames : List Frame) :
    values x frames = [] ↔ ∀ f ∈ frames, f.loop.counter ≠ x := by
  simp [values, List.filter_eq_nil_iff]

theorem stack_store (x : Text) (frames : List Frame) :
    (store frames).stack x = values x frames := by
  induction frames with
  | nil =>
      rfl
  | cons f outer ih =>
      show ((store outer).push f.loop.counter (.number f.value)).stack x = _
      rw [NamedStacks.stack_push, values_cons]
      by_cases h : x = f.loop.counter
      · rw [if_pos h, if_pos h, ← h, ih]
      · rw [if_neg h, if_neg h, ih]

theorem tidy_store (frames : List Frame) : (store frames).Tidy := by
  induction frames with
  | nil =>
      exact NamedStacks.tidy_empty
  | cons f outer ih =>
      exact ih.push _ _

end Frame

namespace Document

/-- The nodes in the innermost of the loops that are being run. -/
def children (d : Document) : List Frame → List Node
  | [] => d
  | f :: _ => f.loop.body

/-- Every loop is one of the nodes in the loop around it, and its counter began as its head says. -/
def Path (d : Document) : List Frame → Prop
  | [] => True
  | f :: outer =>
      (∃ head offset, Node.loop head offset f.loop.body ∈ d.children outer ∧
        Machine.loopOf head f.loop.body = .ok (f.first, f.loop)) ∧ d.Path outer

/-- The tasks are those that the loops have left to do, until only the loops of `base` are being
run. -/
def Pending (d : Document) (base : List Frame) : List Task → List Frame → Prop
  | [], frames => frames = base
  | .document nodes :: rest, frames => nodes = d ∧ frames = [] ∧ d.Pending base rest frames
  | .visit node :: rest, frames => node ∈ d.children frames ∧ d.Pending base rest frames
  | .test loop :: rest, f :: outer => f.loop = loop ∧ d.Pending base rest outer
  | .next loop :: rest, f :: outer => f.loop = loop ∧ d.Pending base rest outer
  | _, _ => False

/-- The counters of all loops, and the variables of all echo tags, have names. -/
structure Named (d : Document) : Prop where
  counter : ∀ head offset, Event.enter head offset ∈ Document.events d →
    isName head.counter = true
  variable_ : ∀ tokens, Event.echo tokens ∈ Document.events d →
    ∀ x, Token.var x ∈ tokens → isName x = true

/-- Whatever happens in a node of a list happens in the list. -/
theorem mem_events_of_mem {e : Event} {node : Node} {nodes : List Node} (hnode : node ∈ nodes)
    (he : e ∈ node.events) : e ∈ Document.events nodes := by
  induction nodes with
  | nil =>
      simp at hnode
  | cons first nodes ih =>
      rw [Document.events, List.mem_append]
      rcases List.mem_cons.1 hnode with rfl | hnode
      · exact Or.inl he
      · exact Or.inr (ih hnode)

/-- Whatever happens in the innermost loop happens in the document. -/
theorem mem_events_of_mem_children {d : Document} {e : Event} {frames : List Frame}
    (hpath : d.Path frames) (he : e ∈ Document.events (d.children frames)) :
    e ∈ Document.events d := by
  induction frames with
  | nil =>
      exact he
  | cons f outer ih =>
      obtain ⟨⟨head, offset, hmem, -⟩, houter⟩ := hpath
      refine ih houter (mem_events_of_mem hmem ?_)
      rw [Node.events]
      exact List.mem_cons_of_mem _ (List.mem_append_left _ he)

/-- The counters and the variables of a document that was read have names. -/
theorem named_of_parse {t : Text} {d : Document} (h : parse t = .ok d) : d.Named := by
  constructor
  · intro head offset he
    have hcounter : Token.var head.counter ∈ (Event.enter head offset).tokens := by
      simp [Event.tokens, LoopHead.arguments]
    exact (readable_of_mem_events h he _ hcounter).1
  · intro tokens he x hx
    exact (readable_of_mem_events h he _ hx).1

end Document

namespace Machine

theorem loopOf_eq_ok {head : LoopHead} {body : List Node} {first : Number} {loop : Loop}
    (h : loopOf head body = .ok (first, loop)) :
    loop.counter = head.counter ∧ loop.body = body := by
  unfold loopOf at h
  obtain ⟨start, -, h⟩ := bind_eq_ok_iff.1 h
  obtain ⟨last, -, h⟩ := bind_eq_ok_iff.1 h
  cases hstep : head.step with
  | none =>
      rw [hstep] at h
      obtain ⟨-, rfl⟩ := Prod.mk.inj (Except.ok.inj h)
      exact ⟨rfl, rfl⟩
  | some t =>
      rw [hstep] at h
      obtain ⟨step, -, h⟩ := bind_eq_ok_iff.1 h
      obtain ⟨-, rfl⟩ := Prod.mk.inj (Except.ok.inj h)
      exact ⟨rfl, rfl⟩

end Machine

open Machine

/-- No name is that of the register. -/
theorem register_ne_of_isName {x : Text} (h : isName x = true) : x ≠ register := by
  rintro rfl
  exact absurd h (by decide)

namespace Document

/-- A loop that leads to where the run is counts with a name. -/
theorem Path.counter_ne_register {d : Document} (hnamed : d.Named) {f : Frame}
    {outer : List Frame} (hpath : d.Path (f :: outer)) : f.loop.counter ≠ register := by
  obtain ⟨⟨head, offset, hmem, hloop⟩, houter⟩ := hpath
  rw [(loopOf_eq_ok hloop).1]
  apply register_ne_of_isName
  refine hnamed.counter head offset (mem_events_of_mem_children houter (mem_events_of_mem hmem ?_))
  rw [Node.events]
  exact List.mem_cons_self

theorem Path.values_register {d : Document} (hnamed : d.Named) {frames : List Frame}
    (hpath : d.Path frames) : Frame.values register frames = [] := by
  induction frames with
  | nil =>
      rfl
  | cons f outer ih =>
      rw [Frame.values_cons, if_neg (hpath.counter_ne_register hnamed).symm, ih hpath.2]

theorem pending_visits {d : Document} {base frames : List Frame} {nodes : List Node}
    {rest : List Task} (hnodes : ∀ node ∈ nodes, node ∈ d.children frames)
    (h : d.Pending base rest frames) : d.Pending base (nodes.map .visit ++ rest) frames := by
  induction nodes with
  | nil =>
      exact h
  | cons node nodes ih =>
      exact ⟨hnodes node List.mem_cons_self,
        ih fun n hn => hnodes n (List.mem_cons_of_mem _ hn)⟩

end Document

/-- The stack of every name but the register holds the current values of the counters of the
name. -/
def Frame.Held (frames : List Frame) (s : NamedStacks) : Prop :=
  ∀ x, x ≠ register → s.stack x = Frame.values x frames

/-- The invariant of a run over the loops of `base`, which were entered before and go on after
it. -/
structure Point.Scoped (d : Document) (base : List Frame) (p : Point) : Prop where
  path : d.Path p.frames
  tidy : p.machine.store.Tidy
  held : Frame.Held p.frames p.machine.store
  tasks : ∃ rest, d.Pending base rest p.frames ∧
    (p.tasks = rest ∧ p.machine.store.stack register = [] ∨
      ∃ done left : List Token, Node.echo (done ++ left) ∈ d.children p.frames ∧
        p.tasks = left.map .token ++ .emit :: rest)

namespace Frame

variable {frames : List Frame} {s s' : NamedStacks}

theorem Held.congr (h : Held frames s) (hs : ∀ x, x ≠ register → s'.stack x = s.stack x) :
    Held frames s' :=
  fun x hx => (hs x hx).trans (h x hx)

/-- The counter of the innermost loop is on top of its stack. -/
theorem Held.stack_counter {f : Frame} {outer : List Frame} (h : Held (f :: outer) s)
    (hf : f.loop.counter ≠ register) :
    s.stack f.loop.counter = .number f.value :: values f.loop.counter outer := by
  rw [h _ hf, values_cons, if_pos rfl]

theorem Held.push (h : Held frames s) (f : Frame) :
    Held (f :: frames) (s.push f.loop.counter (.number f.value)) := by
  intro x hx
  rw [NamedStacks.stack_push, values_cons]
  split
  · next hc =>
      rw [← hc, h x hx]
  · exact h x hx

theorem Held.leave {f : Frame} {outer : List Frame} (h : Held (f :: outer) s) :
    Held outer (s.set f.loop.counter (values f.loop.counter outer)) := by
  intro x hx
  rw [NamedStacks.stack_set]
  split
  · next hc =>
      rw [hc]
  · next hc =>
      rw [h x hx, values_cons, if_neg hc]

/-- Counting on puts the next value where the last one was. -/
theorem Held.advance {f : Frame} {outer : List Frame} (h : Held (f :: outer) s) :
    Held (f.advance :: outer) ((s.set f.loop.counter (values f.loop.counter outer)).push
      f.loop.counter (.number (f.value.plus f.loop.step))) :=
  h.leave.push f.advance

end Frame

namespace Point

variable {d : Document} {base : List Frame} {limit : Option Int}

/-- A step that leaves the stacks and the loops as they are, outside of echo tags. -/
theorem Scoped.of_visit {rest brought : List Task} {frames : List Frame} {m m' : Machine}
    (hpath : d.Path frames) (htidy : m.store.Tidy) (hheld : Frame.Held frames m.store)
    (hregister : m.store.stack register = []) (hstore : m'.store = m.store)
    (hpending : d.Pending base (brought ++ rest) frames) :
    Scoped d base ⟨brought ++ rest, frames, m'⟩ where
  path := hpath
  tidy := by rw [hstore]; exact htidy
  held := by rw [hstore]; exact hheld
  tasks := ⟨_, hpending, Or.inl ⟨rfl, by rw [hstore]; exact hregister⟩⟩

/-- The step that is made when a node is visited. -/
theorem Scoped.visit_step (hnamed : d.Named) {node : Node} {rest brought : List Task}
    {frames : List Frame} {m m' : Machine} (hpath : d.Path frames) (htidy : m.store.Tidy)
    (hheld : Frame.Held frames m.store) (hregister : m.store.stack register = [])
    (hpending : d.Pending base (.visit node :: rest) frames)
    (hperform : (perform limit (.visit node)).runIn m = (.ok brought, m')) :
    Scoped d base ⟨brought ++ rest, Frame.follow (.visit node) brought frames, m'⟩ := by
  obtain ⟨hnode, hrest⟩ := hpending
  cases node with
  | text content =>
      have hstore := store_perform_visit limit m (Or.inr (Or.inl ⟨content, rfl⟩))
      rw [hperform] at hstore
      obtain rfl := returns_bringsOf limit rfl m _ _ hperform
      exact .of_visit hpath htidy hheld hregister hstore hrest
  | echo tokens =>
      have hstore := store_perform_visit limit m (Or.inr (Or.inr ⟨tokens, rfl⟩))
      rw [hperform] at hstore
      obtain rfl := returns_bringsOf limit rfl m _ _ hperform
      refine ⟨hpath, by rw [hstore]; exact htidy, by rw [hstore]; exact hheld, rest, hrest, ?_⟩
      exact Or.inr ⟨[], tokens, hnode, by simp⟩
  | loop head offset body =>
      obtain ⟨steps, ⟨fault, hfail⟩ | ⟨first, loop, hloop, hok⟩⟩ :=
        perform_visit_loop limit head offset body m
      · rw [hperform] at hfail
        simp at hfail
      · rw [hperform] at hok
        obtain ⟨hbrought, rfl⟩ := Prod.mk.inj hok
        obtain rfl := Except.ok.inj hbrought
        obtain ⟨hcounter, hbody⟩ := loopOf_eq_ok hloop
        have hfollow : Frame.follow (.visit (.loop head offset body)) [.test loop] frames =
            ⟨loop, first, 0⟩ :: frames := by
          simp [Frame.follow, hloop]
        have hinner : d.Path (⟨loop, first, 0⟩ :: frames) :=
          ⟨⟨head, offset, by rw [hbody]; exact hnode, by rw [hbody]; exact hloop⟩, hpath⟩
        have hname : loop.counter ≠ register := hinner.counter_ne_register hnamed
        rw [hfollow]
        refine ⟨hinner, htidy.push _ _, hheld.push ⟨loop, first, 0⟩, .test loop :: rest,
          ⟨rfl, hrest⟩, Or.inl ⟨rfl, ?_⟩⟩
        show (m.store.push loop.counter (.number first)).stack register = []
        rw [NamedStacks.stack_push, if_neg hname.symm]
        exact hregister

/-- The step that is made when a loop is tested. -/
theorem Scoped.test_step (hnamed : d.Named) {loop : Loop} {rest brought : List Task}
    {frames : List Frame} {m m' : Machine} (hpath : d.Path frames) (htidy : m.store.Tidy)
    (hheld : Frame.Held frames m.store) (hregister : m.store.stack register = [])
    (hpending : d.Pending base (.test loop :: rest) frames)
    (hperform : (perform limit (.test loop)).runIn m = (.ok brought, m')) :
    Scoped d base ⟨brought ++ rest, Frame.follow (.test loop) brought frames, m'⟩ := by
  cases frames with
  | nil =>
      exact absurd hpending id
  | cons f outer =>
      obtain ⟨rfl, hrest⟩ := hpending
      have hname := hpath.counter_ne_register hnamed
      rw [perform_test limit (hheld.stack_counter hname)] at hperform
      split at hperform
      · obtain ⟨hbrought, rfl⟩ := Prod.mk.inj hperform
        obtain rfl := Except.ok.inj hbrought
        have hfollow : Frame.follow (.test f.loop) (f.loop.body.map .visit ++ [.next f.loop])
            (f :: outer) = f :: outer := by
          simp [Frame.follow]
        rw [hfollow]
        refine .of_visit hpath htidy hheld hregister rfl ?_
        rw [List.append_assoc]
        exact Document.pending_visits (fun _ h => h) ⟨rfl, hrest⟩
      · obtain ⟨hbrought, rfl⟩ := Prod.mk.inj hperform
        obtain rfl := Except.ok.inj hbrought
        refine ⟨hpath.2, htidy.set _ _, hheld.leave, rest, hrest, Or.inl ⟨rfl, ?_⟩⟩
        show (m.store.set f.loop.counter _).stack register = []
        rw [NamedStacks.stack_set, if_neg hname.symm]
        exact hregister

/-- The step that is made when an iteration ends. -/
theorem Scoped.next_step (hnamed : d.Named) {loop : Loop} {rest brought : List Task}
    {frames : List Frame} {m m' : Machine} (hpath : d.Path frames) (htidy : m.store.Tidy)
    (hheld : Frame.Held frames m.store) (hregister : m.store.stack register = [])
    (hpending : d.Pending base (.next loop :: rest) frames)
    (hperform : (perform limit (.next loop)).runIn m = (.ok brought, m')) :
    Scoped d base ⟨brought ++ rest, Frame.follow (.next loop) brought frames, m'⟩ := by
  cases frames with
  | nil =>
      exact absurd hpending id
  | cons f outer =>
      obtain ⟨rfl, hrest⟩ := hpending
      have hname := hpath.counter_ne_register hnamed
      obtain ⟨steps, hm, hbrought⟩ := perform_next limit (hheld.stack_counter hname)
      rw [hperform] at hm hbrought
      obtain rfl := hbrought _ rfl
      obtain rfl : m' = _ := hm
      refine ⟨hpath, (htidy.set _ _).push _ _, hheld.advance, .test f.loop :: rest,
        ⟨rfl, hrest⟩, Or.inl ⟨rfl, ?_⟩⟩
      show ((m.store.set f.loop.counter _).push f.loop.counter _).stack register = []
      rw [NamedStacks.stack_push, if_neg hname.symm, NamedStacks.stack_set, if_neg hname.symm]
      exact hregister

/-- A step keeps the invariant. -/
theorem scoped_step (hnamed : d.Named) {p q : Point} (h : Scoped d base p)
    (hstep : Step limit p q) : Scoped d base q := by
  cases hstep with
  | @mk task rest brought frames m m' hperform =>
      obtain ⟨hpath, htidy, hheld, waiting, hpending,
        ⟨rfl, hregister⟩ | ⟨done, left, hecho, htasks⟩⟩ := h
      · cases task with
        | document nodes =>
            obtain ⟨rfl, hframes, hrest⟩ := hpending
            obtain rfl : frames = [] := hframes
            have hstore := store_perform_visit limit m (Or.inl ⟨nodes, rfl⟩)
            rw [hperform] at hstore
            obtain rfl := returns_bringsOf limit rfl m _ _ hperform
            exact .of_visit hpath htidy hheld hregister hstore
              (Document.pending_visits (fun _ h => h) hrest)
        | visit node =>
            exact .visit_step hnamed hpath htidy hheld hregister hpending hperform
        | token t =>
            cases frames <;> exact absurd hpending id
        | emit =>
            cases frames <;> exact absurd hpending id
        | test loop =>
            exact .test_step hnamed hpath htidy hheld hregister hpending hperform
        | next loop =>
            exact .next_step hnamed hpath htidy hheld hregister hpending hperform
      · cases left with
        | nil =>
            obtain ⟨rfl, rfl⟩ := List.cons.inj htasks
            obtain ⟨hkept, hregister⟩ := registerOnly_perform_emit limit m
            rw [hperform] at hkept hregister
            obtain rfl := returns_bringsOf limit rfl m _ _ hperform
            exact ⟨hpath, hkept.2 htidy, hheld.congr hkept.1, _, hpending, Or.inl ⟨rfl, hregister⟩⟩
        | cons t left =>
            obtain ⟨rfl, rfl⟩ := List.cons.inj htasks
            have hkept := registerOnly_perform_token limit t m
            rw [hperform] at hkept
            obtain rfl := returns_bringsOf limit rfl m _ _ hperform
            exact ⟨hpath, hkept.2 htidy, hheld.congr hkept.1, _, hpending,
              Or.inr ⟨done ++ [t], left, by rw [List.append_assoc]; exact hecho, rfl⟩⟩

/-- The invariant holds at every point of a run that begins with it. -/
theorem scoped_run (hnamed : d.Named) {p q : Point} (h : Scoped d base p) (hrun : Run limit p q) :
    Scoped d base q := by
  induction hrun with
  | refl =>
      exact h
  | tail _ hstep ih =>
      exact scoped_step hnamed ih hstep

/-- A loop that is tested or counts on is the innermost one, with its counter on top of its
stack. -/
theorem Scoped.exists_frame (hnamed : d.Named) {task : Task} {loop : Loop} {rest : List Task}
    {frames : List Frame} {m : Machine} (h : Scoped d base ⟨task :: rest, frames, m⟩)
    (htask : task = .test loop ∨ task = .next loop) :
    ∃ f outer, frames = f :: outer ∧ f.loop = loop ∧
      m.store.stack loop.counter = .number f.value :: Frame.values loop.counter outer := by
  obtain ⟨hpath, -, hheld, waiting, hpending, ⟨rfl, -⟩ | ⟨_, left, -, hecho⟩⟩ := h
  · cases frames with
    | nil =>
        rcases htask with rfl | rfl <;> exact absurd hpending id
    | cons f outer =>
        have hloop : f.loop = loop := by
          rcases htask with rfl | rfl <;> exact hpending.1
        subst hloop
        exact ⟨f, outer, rfl, rfl, hheld.stack_counter (hpath.counter_ne_register hnamed)⟩
  · rcases htask with rfl | rfl <;> cases left <;> simp at hecho

theorem scoped_start (d : Document) (context : Context) : Scoped d [] (start d context) where
  path := trivial
  tidy := NamedStacks.tidy_empty
  held _ _ := rfl
  tasks := ⟨[.document d], ⟨rfl, rfl, rfl⟩, Or.inl ⟨rfl, rfl⟩⟩

end Point
end Stencil
