import Mathlib.Data.List.Basic
import Mathlib.Data.List.Induction

/-!
# Reactive machines and their histories

A *reactive machine* answers one event at a time: from a state and an event it computes the next
state and the outputs it puts out on the way. A program whose loop is driven by its environment
(arrivals, signals, clock readings, the answers of a device) is one such machine per environment
choice, and everything that can be observed of a run is its **history**, the list of outputs.

Most facts about such a program are of one of three shapes, and each has one rule here:

* an invariant of the state, possibly mentioning the history that led to it (`history_induction`);
* a promise about every output of a run (`forall_mem_trace`);
* *the state is a function of the history*: a view of the state is the fold of an observer over the
  outputs (`view_after`). That is the rule which turns a question about all interleavings of a
  program into a question about lists.

`Machine.pipe` runs two machines side by side, the second being fed by the outputs of the first.
-/

namespace Reactive

variable {σ ε ω α : Type*}

/-- A reactive machine: what a state answers to an event, and what it puts out. -/
abbrev Machine (σ ε ω : Type*) := σ → ε → σ × List ω

namespace Machine

/-! ## Runs -/

/-- The state a machine is in after the events of a run. -/
def after (m : Machine σ ε ω) : σ → List ε → σ
  | s, [] => s
  | s, e :: es => after m (m s e).1 es

/-- The history of a run: all outputs, in order. -/
def trace (m : Machine σ ε ω) : σ → List ε → List ω
  | _, [] => []
  | s, e :: es => (m s e).2 ++ trace m (m s e).1 es

variable {m : Machine σ ε ω}

@[simp] theorem after_nil (s : σ) : m.after s [] = s := rfl

@[simp] theorem trace_nil (s : σ) : m.trace s [] = [] := rfl

@[simp] theorem after_cons (s : σ) (e : ε) (es : List ε) :
    m.after s (e :: es) = m.after (m s e).1 es := rfl

@[simp] theorem trace_cons (s : σ) (e : ε) (es : List ε) :
    m.trace s (e :: es) = (m s e).2 ++ m.trace (m s e).1 es := rfl

theorem after_append (s : σ) (es fs : List ε) :
    m.after s (es ++ fs) = m.after (m.after s es) fs := by
  induction es generalizing s with
  | nil => rfl
  | cons e es ih => simp only [List.cons_append, after_cons, ih]

theorem trace_append (s : σ) (es fs : List ε) :
    m.trace s (es ++ fs) = m.trace s es ++ m.trace (m.after s es) fs := by
  induction es generalizing s with
  | nil => rfl
  | cons e es ih => simp only [List.cons_append, trace_cons, after_cons, ih, List.append_assoc]

theorem after_snoc (s : σ) (es : List ε) (e : ε) :
    m.after s (es ++ [e]) = (m (m.after s es) e).1 := by
  rw [after_append]
  rfl

theorem trace_snoc (s : σ) (es : List ε) (e : ε) :
    m.trace s (es ++ [e]) = m.trace s es ++ (m (m.after s es) e).2 := by
  rw [trace_append, trace_cons, trace_nil, List.append_nil]

theorem mem_trace {s : σ} {es : List ε} {o : ω} :
    o ∈ m.trace s es ↔
      ∃ pre e post, es = pre ++ e :: post ∧ o ∈ (m (m.after s pre) e).2 := by
  induction es generalizing s with
  | nil => simp
  | cons e es ih =>
    rw [trace_cons, List.mem_append, ih]
    constructor
    · rintro (ho | ⟨pre, f, post, rfl, ho⟩)
      · exact ⟨[], e, es, rfl, ho⟩
      · exact ⟨e :: pre, f, post, rfl, ho⟩
    · rintro ⟨pre, f, post, hes, ho⟩
      cases pre with
      | nil =>
        obtain ⟨rfl, rfl⟩ := List.cons.inj hes
        exact Or.inl ho
      | cons g pre =>
        obtain ⟨rfl, rfl⟩ := List.cons.inj hes
        exact Or.inr ⟨pre, f, post, rfl, ho⟩

/-- Nothing is picked out of the outputs of a run exactly if nothing is picked out of any step's. -/
theorem filterMap_trace_eq_nil {f : ω → Option α} {s : σ} {es : List ε} :
    (m.trace s es).filterMap f = [] ↔
      ∀ pre e post, es = pre ++ e :: post → (m (m.after s pre) e).2.filterMap f = [] := by
  simp only [List.filterMap_eq_nil_iff]
  constructor
  · intro h pre e post hes o ho
    exact h o (mem_trace.mpr ⟨pre, e, post, hes, ho⟩)
  · intro h o ho
    obtain ⟨pre, e, post, hes, ho⟩ := mem_trace.mp ho
    exact h pre e post hes o ho

/-- **The last thing picked out of the outputs of a run** comes from one step, behind which nothing
more is picked. -/
theorem getLast?_filterMap_trace {f : ω → Option α} {s : σ} {es : List ε} {a : α} :
    ((m.trace s es).filterMap f).getLast? = some a ↔
      ∃ pre e post, es = pre ++ e :: post ∧
        ((m (m.after s pre) e).2.filterMap f).getLast? = some a ∧
        (m.trace (m.after s (pre ++ [e])) post).filterMap f = [] := by
  constructor
  · induction es using List.reverseRecOn with
    | nil => intro h; cases h
    | append_singleton es e ih =>
      rw [trace_snoc, List.filterMap_append]
      intro h
      by_cases hnil : (m (m.after s es) e).2.filterMap f = []
      · rw [hnil, List.append_nil] at h
        obtain ⟨pre, e', post, rfl, hlast, hquiet⟩ := ih h
        refine ⟨pre, e', post ++ [e], by simp, hlast, ?_⟩
        rw [trace_snoc, List.filterMap_append, hquiet, ← after_append, List.append_assoc]
        exact hnil
      · rw [List.getLast?_append_of_ne_nil _ hnil] at h
        exact ⟨es, e, [], rfl, h, rfl⟩
  · rintro ⟨pre, e, post, rfl, hlast, hquiet⟩
    rw [after_snoc] at hquiet
    rw [trace_append, trace_cons, List.filterMap_append, List.filterMap_append, hquiet,
      List.append_nil, List.getLast?_append_of_ne_nil]
    · exact hlast
    · intro hnil
      rw [hnil] at hlast
      cases hlast

/-! ## Invariants -/

/-- **Induction along a run.** What holds at the start and is kept by every step, the outputs of the
step being added to the history, holds of every state reached together with its history. -/
theorem history_induction {Inv : σ → List ω → Prop} {s : σ} {h : List ω} (h₀ : Inv s h)
    (hstep : ∀ s h e, Inv s h → Inv (m s e).1 (h ++ (m s e).2)) (es : List ε) :
    Inv (m.after s es) (h ++ m.trace s es) := by
  induction es generalizing s h with
  | nil => simpa using h₀
  | cons e es ih =>
    have := ih (hstep s h e h₀)
    rwa [List.append_assoc] at this

theorem invariant_after {Inv : σ → Prop} {s : σ} (h₀ : Inv s)
    (hstep : ∀ s e, Inv s → Inv (m s e).1) (es : List ε) : Inv (m.after s es) :=
  @history_induction _ _ _ m (fun s _ => Inv s) s [] h₀ (fun s _ e hs => hstep s e hs) es

/-- **Every output of a run is allowed** when an invariant is kept and the steps taken under it put
out nothing else. -/
theorem forall_mem_trace {Inv : σ → Prop} {Ok : ω → Prop} {s : σ} (h₀ : Inv s)
    (hstep : ∀ s e, Inv s → Inv (m s e).1) (hout : ∀ s e, Inv s → ∀ o ∈ (m s e).2, Ok o)
    {es : List ε} : ∀ o ∈ m.trace s es, Ok o := by
  intro o ho
  obtain ⟨pre, e, post, -, ho⟩ := mem_trace.mp ho
  exact hout _ e (invariant_after h₀ hstep pre) o ho

/-- **First in, first out.** When every step puts what comes in behind what the state holds, and
takes off the front what it puts out, then so does a run: nothing is lost, doubled or overtaken. -/
theorem conserved {β : Type*} {held : σ → List β} {inflow : ε → List β} {outflow : ω → List β}
    (hstep : ∀ s e, (m s e).2.flatMap outflow ++ held (m s e).1 = held s ++ inflow e) (s : σ)
    (es : List ε) :
    (m.trace s es).flatMap outflow ++ held (m.after s es) = held s ++ es.flatMap inflow := by
  induction es generalizing s with
  | nil => simp
  | cons e es ih =>
    calc (m.trace s (e :: es)).flatMap outflow ++ held (m.after s (e :: es))
        = (m s e).2.flatMap outflow ++
            ((m.trace (m s e).1 es).flatMap outflow ++ held (m.after (m s e).1 es)) := by simp
      _ = (m s e).2.flatMap outflow ++ held (m s e).1 ++ es.flatMap inflow := by
          rw [ih, List.append_assoc]
      _ = held s ++ (e :: es).flatMap inflow := by rw [hstep, List.append_assoc, List.flatMap_cons]

/-! ## What is seen along the way -/

/-- The same machine, with something else to be seen of its steps. -/
def probe (m : Machine σ ε ω) (f : σ → ε → List α) : Machine σ ε α := fun s e => ((m s e).1, f s e)

@[simp] theorem after_probe (f : σ → ε → List α) (s : σ) (es : List ε) :
    (m.probe f).after s es = m.after s es := by
  induction es generalizing s with
  | nil => rfl
  | cons e es ih => exact ih _

theorem trace_probe_snoc (f : σ → ε → List α) (s : σ) (es : List ε) (e : ε) :
    (m.probe f).trace s (es ++ [e]) = (m.probe f).trace s es ++ f (m.after s es) e := by
  rw [trace_snoc, after_probe]
  rfl

/-! ## The state as a function of the events -/

/-- **A run follows an observer of its events** when every step does: related at the start, the
state stays related to the fold of the observer over the events alone. -/
theorem rel_after_foldl {τ : Type*} (Rel : σ → τ → Prop) {observe : τ → ε → τ} {s : σ} {t : τ}
    (h₀ : Rel s t) (hstep : ∀ s t e, Rel s t → Rel (m s e).1 (observe t e)) (es : List ε) :
    Rel (m.after s es) (es.foldl observe t) := by
  induction es generalizing s t with
  | nil => exact h₀
  | cons e es ih => exact ih (hstep s t e h₀)

/-- The events of a run hold none of a kind, or a last one. -/
theorem none_or_last (p : ε → Prop) (es : List ε) :
    (∀ e ∈ es, ¬ p e) ∨ ∃ pre e post, es = pre ++ e :: post ∧ p e ∧ ∀ f ∈ post, ¬ p f := by
  induction es using List.reverseRecOn with
  | nil => exact Or.inl (by simp)
  | append_singleton es e ih =>
    by_cases he : p e
    · exact Or.inr ⟨es, e, [], rfl, he, by simp⟩
    · rcases ih with hnone | ⟨pre, f, post, rfl, hf, hpost⟩
      · left
        intro g hg
        rcases List.mem_append.mp hg with hg | hg
        · exact hnone g hg
        · exact List.mem_singleton.mp hg ▸ he
      · right
        refine ⟨pre, f, post ++ [e], by simp, hf, ?_⟩
        intro g hg
        rcases List.mem_append.mp hg with hg | hg
        · exact hpost g hg
        · exact List.mem_singleton.mp hg ▸ he

/-! ## Views: the state as a function of the history -/

/-- **A view that every step updates by its outputs alone is a function of the history.** -/
theorem view_after {view : σ → α} {observe : α → ω → α}
    (hstep : ∀ s e, view (m s e).1 = (m s e).2.foldl observe (view s)) (s : σ) (es : List ε) :
    view (m.after s es) = (m.trace s es).foldl observe (view s) := by
  induction es generalizing s with
  | nil => rfl
  | cons e es ih => rw [after_cons, ih, hstep, trace_cons, List.foldl_append]

/-! ## Two machines, one feeding the other -/

section Pipe

variable {τ δ ρ : Type*}

/-- Two machines side by side. The left one answers the left events, and what it puts out is handed
to the right one (`feed`) at once; the right one answers the right events in its own time. -/
def pipe (m : Machine σ ε ω) (feed : τ → List ω → τ) (n : Machine τ δ ρ) :
    Machine (σ × τ) (ε ⊕ δ) (ω ⊕ ρ)
  | (s, t), .inl e => (((m s e).1, feed t (m s e).2), (m s e).2.map .inl)
  | (s, t), .inr d => ((s, (n t d).1), (n t d).2.map .inr)

variable {feed : τ → List ω → τ} {n : Machine τ δ ρ}

def lefts : List (ε ⊕ δ) → List ε := List.filterMap Sum.getLeft?

/-- The left machine of a pipe runs as it would alone. -/
theorem pipe_fst (s : σ) (t : τ) (es : List (ε ⊕ δ)) :
    ((pipe m feed n).after (s, t) es).1 = m.after s (lefts es) := by
  induction es generalizing s t with
  | nil => rfl
  | cons e es ih =>
    cases e with
    | inl e => exact ih _ _
    | inr d => exact ih _ _

/-- **Induction along a run of a pipe**: an invariant between the two states and the left machine's
history, kept by the steps of either side. -/
theorem pipe_induction (Inv : σ → τ → List ω → Prop) {s : σ} {t : τ} (h₀ : Inv s t [])
    (hleft : ∀ s t h e, Inv s t h → Inv (m s e).1 (feed t (m s e).2) (h ++ (m s e).2))
    (hright : ∀ s t h d, Inv s t h → Inv s (n t d).1 h) (es : List (ε ⊕ δ)) :
    Inv ((pipe m feed n).after (s, t) es).1 ((pipe m feed n).after (s, t) es).2
      (m.trace s (lefts es)) := by
  suffices hgen : ∀ (h : List ω) (s : σ) (t : τ), Inv s t h →
      Inv ((pipe m feed n).after (s, t) es).1 ((pipe m feed n).after (s, t) es).2
        (h ++ m.trace s (lefts es)) by
    simpa using hgen [] s t h₀
  induction es with
  | nil => intro h s t hi; simpa [lefts] using hi
  | cons e es ih =>
    intro h s t hi
    cases e with
    | inl e =>
      have := ih _ _ _ (hleft s t h e hi)
      rwa [List.append_assoc] at this
    | inr d => exact ih h s _ (hright s t h d hi)

end Pipe

end Machine

end Reactive
