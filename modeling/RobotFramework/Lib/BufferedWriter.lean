import RobotFramework.Lib.Reactive

/-!
# Buffered writers

A *buffered writer* collects what is put into it and writes it to its sink when it is flushed, which
it does by itself once `limit` entries have come together. It is opened by the first entry at the
latest; opening it once more starts with an empty buffer, and breaks the sink: from then on nothing
is written until the writer has been closed.

Whether a sequence of operations loses anything depends on three things only that can be told
without the entries: whether the writer is open, whether it was opened again, and how many entries
are pending (`Meter`). `written_eq_puts_iff`: everything is delivered, once and in order, exactly if
no operation is one of the two that lose.
-/

namespace BufferedWriter

open Reactive

variable {α : Type*}

inductive Op (α : Type*) where
  /-- Open, with an empty buffer. -/
  | start
  | put (a : α)
  | flush
  | close

/-- What a sequence of operations puts in. -/
def puts (ops : List (Op α)) : List α :=
  ops.filterMap fun op => match op with | .put a => some a | _ => none

structure State (α : Type*) where
  isOpen : Bool
  /-- The sink takes nothing any more. -/
  failed : Bool
  buffer : List α

def closed : State α := ⟨false, false, []⟩

def flush (s : State α) : State α × List α :=
  ({ s with buffer := [] }, if s.failed then [] else s.buffer)

/-- Buffer an entry in an open writer. -/
def push (limit : Nat) (s : State α) (a : α) : State α × List α :=
  let s := { s with buffer := s.buffer ++ [a] }
  if limit ≤ s.buffer.length then flush s else (s, [])

def writer (limit : Nat) : Machine (State α) (Op α) α
  | s, .start => (⟨true, s.isOpen, []⟩, [])
  | s, .put a => push limit (if s.isOpen then s else ⟨true, false, []⟩) a
  | s, .flush => flush s
  | s, .close => (closed, (flush s).2)

/-! ## Flushing -/

/-- An empty buffer has nothing to flush. -/
theorem flush_of_buffer_eq_nil {s : State α} (h : s.buffer = []) : flush s = (s, []) := by
  obtain ⟨isOpen, failed, buffer⟩ := s
  cases h
  unfold flush
  simp

/-- To flush twice is to flush once. -/
theorem flush_many {β : Type*} (limit : Nat) (s : State α) (x : β) (xs : List β) :
    (writer limit).after s ((x :: xs).map fun _ => .flush) = (flush s).1 ∧
      (writer limit).trace s ((x :: xs).map fun _ => .flush) = (flush s).2 := by
  have hfirst : writer limit s .flush = flush s := rfl
  induction xs with
  | nil => exact ⟨rfl, List.append_nil _⟩
  | cons y xs ih =>
    obtain ⟨hafter, htrace⟩ := ih
    have hidle : writer limit (flush s).1 .flush = ((flush s).1, []) := flush_of_buffer_eq_nil rfl
    rw [List.map_cons, Machine.after_cons, hfirst] at hafter
    rw [List.map_cons, Machine.trace_cons, hfirst] at htrace
    rw [List.map_cons, List.map_cons, Machine.after_cons, Machine.after_cons, Machine.trace_cons,
      Machine.trace_cons, hfirst, hidle, List.nil_append]
    exact ⟨hafter, htrace⟩

/-! ## What can be told without the entries -/

structure Meter where
  isOpen : Bool
  reopened : Bool
  pending : Nat

namespace Meter

def step (limit : Nat) : Meter → Op α → Meter
  | m, .start => ⟨true, m.isOpen, 0⟩
  | m, .put _ => ⟨true, m.reopened, if limit ≤ m.pending + 1 then 0 else m.pending + 1⟩
  | m, .flush => { m with pending := 0 }
  | _, .close => ⟨false, false, 0⟩

/-- The operation loses something: it opens a writer with entries pending, or puts one into a writer
that was opened again. -/
def loses : Meter → Op α → Bool
  | m, .start => m.pending ≠ 0
  | m, .put _ => m.reopened
  | _, _ => false

end Meter

def meter (limit : Nat) (ops : List (Op α)) : Meter :=
  ops.foldl (Meter.step limit) ⟨false, false, 0⟩

def Lossless (limit : Nat) (ops : List (Op α)) : Prop :=
  ∀ pre op post, ops = pre ++ op :: post → (meter limit pre).loses op = false

variable {limit : Nat}

theorem meter_snoc (ops : List (Op α)) (op : Op α) :
    meter limit (ops ++ [op]) = (meter limit ops).step limit op := by
  simp [meter]

theorem puts_append (ops ops' : List (Op α)) : puts (ops ++ ops') = puts ops ++ puts ops' :=
  List.filterMap_append

theorem lossless_nil : Lossless limit ([] : List (Op α)) := by
  intro pre op post h
  simp at h

theorem lossless_snoc {ops : List (Op α)} {op : Op α} :
    Lossless limit (ops ++ [op]) ↔ Lossless limit ops ∧ (meter limit ops).loses op = false := by
  constructor
  · intro h
    refine ⟨?_, h ops op [] rfl⟩
    rintro pre op' post rfl
    exact h pre op' (post ++ [op]) (by simp)
  · rintro ⟨hops, hop⟩ pre op' post hsplit
    rcases List.eq_nil_or_concat post with rfl | ⟨post, op'', rfl⟩
    · obtain ⟨rfl, rfl⟩ := List.append_inj' hsplit rfl |>.imp id fun h => (List.cons.inj h).1
      exact hop
    · rw [List.concat_eq_append, ← List.cons_append, ← List.append_assoc] at hsplit
      exact hops pre op' post (List.append_inj' hsplit rfl).1

/-! ## The account of a writer -/

/-- What has been written, and what a flush would write. -/
def delivered (s : State α) (h : List α) : List α := h ++ (flush s).2

/-- The state of a writer and what it has written, behind some operations. As long as these lost
nothing, all that was put in has been delivered, and a broken sink has nothing pending; afterwards
something is missing for good. -/
structure Account (limit : Nat) (ops : List (Op α)) (s : State α) (h : List α) : Prop where
  isOpen : s.isOpen = (meter limit ops).isOpen
  failed : s.failed = (meter limit ops).reopened
  pending : s.buffer.length = (meter limit ops).pending
  closed : s.isOpen = false → s = BufferedWriter.closed
  clean : Lossless limit ops → s.failed = true → s.buffer = []
  kept : Lossless limit ops → delivered s h = puts ops
  lost : ¬ Lossless limit ops → (delivered s h).length < (puts ops).length

theorem account_nil : Account limit [] (closed : State α) [] :=
  ⟨rfl, rfl, rfl, fun _ => rfl, fun _ _ => rfl, fun _ => rfl, fun h => absurd lossless_nil h⟩

/-- A flush delivers nothing new: it only writes. -/
theorem delivered_flush (s : State α) (h : List α) :
    delivered (flush s).1 (h ++ (flush s).2) = delivered s h := by
  cases hs : s.failed <;> simp [delivered, flush, hs]

/-- An entry is delivered as long as the sink takes it, written or not. -/
theorem delivered_push (s : State α) (a : α) (h : List α) :
    delivered (push limit s a).1 (h ++ (push limit s a).2) =
      delivered s h ++ if s.failed then [] else [a] := by
  unfold push
  simp only
  split
  · rw [delivered_flush]
    cases hs : s.failed <;> simp [delivered, flush, hs]
  · cases hs : s.failed <;> simp [delivered, flush, hs]

/-- An operation that cannot lose and puts nothing keeps the account if it empties the buffer into
the sink. -/
theorem Account.emptied {ops : List (Op α)} {op : Op α} {s s' : State α} {h h' : List α}
    (ha : Account limit ops s h) (hop : ∀ m : Meter, m.loses op = false) (hputs : puts [op] = [])
    (hmeter : meter limit (ops ++ [op]) = ⟨s'.isOpen, s'.failed, 0⟩) (hbuffer : s'.buffer = [])
    (hclosed : s'.isOpen = false → s' = BufferedWriter.closed)
    (hdelivered : delivered s' h' = delivered s h) : Account limit (ops ++ [op]) s' h' := by
  have hlossless : Lossless limit (ops ++ [op]) ↔ Lossless limit ops := by
    rw [lossless_snoc]
    exact and_iff_left (hop _)
  refine ⟨?_, ?_, ?_, hclosed, fun _ _ => hbuffer, ?_, ?_⟩
  · rw [hmeter]
  · rw [hmeter]
  · rw [hmeter, hbuffer]
    rfl
  · rw [hlossless, hdelivered, puts_append, hputs, List.append_nil]
    exact ha.kept
  · rw [hlossless, hdelivered, puts_append, hputs, List.append_nil]
    exact ha.lost

theorem Account.flush {ops : List (Op α)} {s : State α} {h : List α} (ha : Account limit ops s h) :
    Account limit (ops ++ [.flush]) (flush s).1 (h ++ (BufferedWriter.flush s).2) := by
  refine ha.emptied (fun _ => rfl) rfl ?_ rfl ?_ (delivered_flush s h)
  · rw [meter_snoc, Meter.step, ← ha.isOpen, ← ha.failed]
    rfl
  · intro hclosed
    have hs : s = BufferedWriter.closed := ha.closed hclosed
    rw [hs]
    rfl

theorem Account.close {ops : List (Op α)} {s : State α} {h : List α} (ha : Account limit ops s h) :
    Account limit (ops ++ [.close]) BufferedWriter.closed (h ++ (BufferedWriter.flush s).2) := by
  refine ha.emptied (fun _ => rfl) rfl ?_ rfl (fun _ => rfl) ?_
  · rw [meter_snoc]
    rfl
  · exact List.append_nil _

theorem Account.start {ops : List (Op α)} {s : State α} {h : List α} (ha : Account limit ops s h) :
    Account limit (ops ++ [.start]) ⟨true, s.isOpen, []⟩ h := by
  have hpending : (meter limit ops).loses (Op.start (α := α)) = false ↔ s.buffer = [] := by
    simp [Meter.loses, ← ha.pending]
  have hdelivered : delivered (⟨true, s.isOpen, []⟩ : State α) h = h := by
    simp [delivered, BufferedWriter.flush]
  have hputs : puts (ops ++ [.start]) = puts ops := by
    rw [puts_append]
    exact List.append_nil _
  refine ⟨?_, ?_, ?_, fun hopen => (Bool.noConfusion hopen), fun _ _ => rfl, ?_, ?_⟩
  · rw [meter_snoc]
    rfl
  · rw [meter_snoc]
    exact ha.isOpen
  · rw [meter_snoc]
    rfl
  · rw [lossless_snoc, hpending, hdelivered, hputs]
    rintro ⟨hops, hempty⟩
    have hkept := ha.kept hops
    simpa [delivered, BufferedWriter.flush, hempty] using hkept
  · rw [lossless_snoc, hpending, hdelivered, hputs]
    intro hlost
    by_cases hops : Lossless limit ops
    · -- What was pending was to be delivered, and is gone.
      have hbuffer : s.buffer ≠ [] := fun hempty => hlost ⟨hops, hempty⟩
      have hfailed : s.failed ≠ true := fun hf => hbuffer (ha.clean hops hf)
      have hkept : h ++ s.buffer = puts ops := by
        have hall := ha.kept hops
        rwa [delivered, BufferedWriter.flush, if_neg hfailed] at hall
      have hpos : 0 < s.buffer.length := List.length_pos_of_ne_nil hbuffer
      rw [← hkept, List.length_append]
      omega
    · have hless := ha.lost hops
      rw [delivered, List.length_append] at hless
      omega

/-- Without the entries, an entry put into a writer that is not open opens it. -/
theorem Account.opened {ops : List (Op α)} {s : State α} {h : List α} (ha : Account limit ops s h) :
    (if s.isOpen then s else ⟨true, false, []⟩) = { s with isOpen := true } := by
  cases hopen : s.isOpen with
  | true => rw [if_pos rfl, ← hopen]
  | false => rw [ha.closed hopen]; rfl

theorem Account.put {ops : List (Op α)} {s : State α} {h : List α} (ha : Account limit ops s h)
    (a : α) :
    Account limit (ops ++ [.put a]) (push limit { s with isOpen := true } a).1
      (h ++ (push limit { s with isOpen := true } a).2) := by
  have hloses : (meter limit ops).loses (.put a) = s.failed := ha.failed.symm
  have hputs : puts (ops ++ [.put a]) = puts ops ++ [a] := puts_append ops [.put a]
  have hdelivered : delivered (push limit { s with isOpen := true } a).1
      (h ++ (push limit { s with isOpen := true } a).2) =
        delivered s h ++ if s.failed then [] else [a] := delivered_push _ a h
  have hfields : (push limit { s with isOpen := true } a).1.isOpen = true ∧
      (push limit { s with isOpen := true } a).1.failed = s.failed ∧
      (push limit { s with isOpen := true } a).1.buffer.length =
        if limit ≤ s.buffer.length + 1 then 0 else s.buffer.length + 1 := by
    unfold push BufferedWriter.flush
    simp only [List.length_append, List.length_singleton]
    split
    · exact ⟨rfl, rfl, rfl⟩
    · exact ⟨rfl, rfl, by simp⟩
  obtain ⟨hopen, hfailed, hlength⟩ := hfields
  refine ⟨?_, ?_, ?_, ?_, ?_, ?_, ?_⟩
  · rw [hopen, meter_snoc]
    rfl
  · rw [hfailed, meter_snoc]
    exact ha.failed
  · rw [hlength, meter_snoc, ha.pending]
    rfl
  · intro hclosed
    rw [hopen] at hclosed
    cases hclosed
  · rw [lossless_snoc, hloses, hfailed]
    rintro ⟨-, hok⟩ hf
    rw [hok] at hf
    cases hf
  · rw [lossless_snoc, hloses, hdelivered, hputs]
    rintro ⟨hops, hok⟩
    rw [ha.kept hops, hok]
    rfl
  -- Either this is the first put that is lost, or one was lost before and this adds at most one.
  · rw [lossless_snoc, hloses, hdelivered, hputs, List.length_append, List.length_append]
    intro hlost
    by_cases hops : Lossless limit ops
    · have hf : s.failed = true := by
        by_contra hok
        exact hlost ⟨hops, by simpa using hok⟩
      rw [ha.kept hops, hf]
      exact Nat.lt_succ_self _
    · have hless := ha.lost hops
      have hle : (if s.failed = true then [] else [a]).length ≤ 1 := by
        cases s.failed <;> simp
      rw [List.length_singleton]
      omega

theorem Account.step {ops : List (Op α)} {s : State α} {h : List α} (ha : Account limit ops s h)
    (op : Op α) :
    Account limit (ops ++ [op]) (writer limit s op).1 (h ++ (writer limit s op).2) := by
  cases op with
  | start =>
    rw [writer, List.append_nil]
    exact ha.start
  | put a =>
    rw [writer, ha.opened]
    exact ha.put a
  | flush => exact ha.flush
  | close => exact ha.close

theorem account_run (ops : List (Op α)) :
    Account limit ops ((writer limit).after closed ops) ((writer limit).trace closed ops) := by
  induction ops using List.reverseRecOn with
  | nil => exact account_nil
  | append_singleton ops op ih =>
    rw [Machine.after_snoc, Machine.trace_snoc]
    exact ih.step op

/-- **A buffered writer delivers everything, once and in order,** when it is closed in the end,
exactly if no operation is one that loses. -/
theorem written_eq_puts_iff (ops : List (Op α)) :
    (writer limit).trace closed (ops ++ [.close]) = puts ops ↔ Lossless limit ops := by
  have haccount : Account limit ops _ _ := account_run ops
  have htrace : (writer limit).trace closed (ops ++ [.close]) =
      delivered ((writer limit).after closed ops) ((writer limit).trace closed ops) :=
    Machine.trace_snoc _ _ _
  rw [htrace]
  constructor
  · intro heq
    by_contra hlost
    have hless := haccount.lost hlost
    rw [heq] at hless
    exact Nat.lt_irrefl _ hless
  · exact haccount.kept

/-- Where no operation has lost anything, a flush writes what is left. -/
theorem written_of_flushed {ops : List (Op α)} (h : Lossless limit ops) :
    (writer limit).trace closed (ops ++ [.flush]) = puts ops := by
  rw [Machine.trace_snoc]
  exact (account_run ops).kept h

/-! ## Sequences that only put -/

theorem lossless_append_puts {ops : List (Op α)} (h : Lossless limit ops)
    (hm : (meter limit ops).reopened = false) (as : List α) :
    Lossless limit (ops ++ as.map .put) := by
  suffices hboth : Lossless limit (ops ++ as.map .put) ∧
      (meter limit (ops ++ as.map .put)).reopened = false from hboth.1
  induction as using List.reverseRecOn with
  | nil => simpa using ⟨h, hm⟩
  | append_singleton as a ih =>
    rw [List.map_append, ← List.append_assoc, List.map_singleton, lossless_snoc, meter_snoc]
    exact ⟨⟨ih.1, ih.2⟩, ih.2⟩

/-- Nothing is written before the buffer is full. -/
theorem trace_puts_of_lt {s : State α} (hopen : s.isOpen = true) {as : List α}
    (h : s.buffer.length + as.length < limit) :
    (writer limit).trace s (as.map .put) = [] := by
  induction as generalizing s with
  | nil => rfl
  | cons a as ih =>
    rw [List.length_cons] at h
    have hput : writer limit s (.put a) = ({ s with buffer := s.buffer ++ [a] }, []) := by
      rw [writer, if_pos hopen, push, if_neg]
      simp only [List.length_append, List.length_singleton]
      omega
    have hrest : (s.buffer ++ [a]).length + as.length < limit := by
      rw [List.length_append, List.length_singleton]
      omega
    rw [List.map_cons, Machine.trace_cons, hput, List.nil_append]
    exact ih hopen hrest

end BufferedWriter
