import RobotFramework.Networks.Decode

/-!
# What a malformed message leaves in the decoder

`decode_cmd` is one chain of extractions into seven members (`members_decodeCmd`), so a message
overwrites **the first members it reaches** and no others, whatever they held. How many these are is
decided by the first field that is not what its member takes: the fields before it are stored, its
own member gets what the failed conversion stores, and the members behind keep their old values
(`decode_fields`).
-/

namespace RobotFramework

open Cxx

/-- The types of the members of `cmdDecoder`. -/
inductive Kind where
  | int
  | double
  | bool
deriving DecidableEq

inductive Value (K : Type) where
  | int (n : Int)
  | double (x : K)
  | bool (b : Bool)
deriving DecidableEq

/-- `id velocity_x velocity_y velocity_w kick dribble time` -/
def kinds : List Kind := [.int, .double, .double, .double, .bool, .bool, .double]

def CmdDecoder.members {K : Type} (cmd : CmdDecoder K) : List (Value K) :=
  [.int cmd.id, .double cmd.velocityX, .double cmd.velocityY, .double cmd.velocityW, .bool cmd.kick,
    .bool cmd.dribble, .double cmd.time]

variable {K : Type} [RatCast K]

namespace Kind

/-- The conversion into a member. -/
def get : Kind → Scanner (Got (Value K))
  | .int => IStream.storeAs .int getInt
  | .double => IStream.storeAs .double getDouble
  | .bool => IStream.storeAs .bool getBool

/-- What a valid field of the kind spells; a flag is written `0` or `1`. -/
def value? : Kind → Text → Option (Value K)
  | .int, w => (numeral? getInt w).map .int
  | .double, w => (numeral? getDouble w).map .double
  | .bool, w => (flag? w).map .bool

theorem get_local (k : Kind) : Local (k.get (K := K)) := by
  cases k with
  | int => exact IStream.storeAs_local getInt_local
  | double => exact IStream.storeAs_local getDouble_local
  | bool => exact IStream.storeAs_local getBool_local

/-- A numeral is read to its end, and without a failure. -/
theorem storeAs_of_numeral? {α β : Type} {get : Scanner (Got α)} (f : α → β) {w : Text} {v : α}
    (h : numeral? get w = some v) : IStream.storeAs f get w = (⟨f v, false⟩, []) := by
  have hget := numeral?_eq_some.mp h
  simp only [IStream.storeAs, bind, pure, hget]

theorem get_of_value? {k : Kind} {w : Text} {v : Value K} (h : k.value? w = some v) :
    k.get w = (⟨v, false⟩, []) := by
  cases k with
  | int =>
    obtain ⟨n, hn, rfl⟩ := Option.map_eq_some_iff.mp h
    exact storeAs_of_numeral? _ hn
  | double =>
    obtain ⟨x, hx, rfl⟩ := Option.map_eq_some_iff.mp h
    exact storeAs_of_numeral? _ hx
  | bool =>
    obtain ⟨b, hb, rfl⟩ := Option.map_eq_some_iff.mp h
    exact storeAs_of_numeral? _ (numeral?_of_flag? hb)

end Kind

/-- **`decode_cmd` is one chain.** -/
theorem members_decodeCmd (cmd : CmdDecoder K) (message : Text) :
    (cmd.decodeCmd message).members =
      IStream.extractAll (kinds.map Kind.get) (IStream.ofText message) cmd.members := by
  simp only [kinds, CmdDecoder.members, List.map_cons, List.map_nil, IStream.extractAll, Kind.get,
    IStream.extract_storeAs]
  rfl

/-- What a message has for a member, if the chain comes to it. -/
def field? (message : Text) (i : Nat) : Option (Value K) :=
  (IStream.stored (kinds.map Kind.get) (IStream.ofText message))[i]?

/-- A member holds what the message has for it, or else what it held before. -/
theorem member_decodeCmd (cmd : CmdDecoder K) (message : Text) (i : Nat) :
    (cmd.decodeCmd message).members[i]? = (field? message i).or cmd.members[i]? := by
  rw [members_decodeCmd, IStream.extractAll_eq _ _ rfl, List.getElem?_append, field?]
  split
  · rename_i hlt
    rw [List.getElem?_eq_getElem hlt, Option.some_or]
  · rename_i hle
    rw [List.getElem?_eq_none (Nat.le_of_not_lt hle), Option.none_or, List.getElem?_drop,
      Nat.add_sub_cancel' (Nat.le_of_not_lt hle)]

/-- The first words spell these values, in fields of these kinds. -/
def Begins : List Kind → List Text → List (Value K) → Prop
  | _, _, [] => True
  | k :: ks, w :: ws, v :: vs => k.value? w = some v ∧ Begins ks ws vs
  | _, _, _ :: _ => False

theorem Begins.length_le {ks : List Kind} {ws : List Text} {vs : List (Value K)}
    (h : Begins ks ws vs) : vs.length ≤ ks.length ∧ vs.length ≤ ws.length := by
  induction vs generalizing ks ws with
  | nil => exact ⟨Nat.zero_le _, Nat.zero_le _⟩
  | cons v vs ih =>
    match ks, ws, h with
    | k :: ks, w :: ws, ⟨_, h⟩ =>
      obtain ⟨hks, hws⟩ := ih h
      exact ⟨Nat.succ_le_succ hks, Nat.succ_le_succ hws⟩

/-- Valid fields at the front of a message are stored, and the chain goes on at the words behind
them. -/
theorem stored_of_begins {ks : List Kind} {s : IStream} {vs : List (Value K)} (hs : s.fail = false)
    (h : Begins ks (words s.rest) vs) :
    ∃ r, words r = (words s.rest).drop vs.length ∧
      IStream.stored (ks.map Kind.get) s =
        vs ++ IStream.stored ((ks.drop vs.length).map Kind.get) ⟨r, false⟩ := by
  induction vs generalizing ks s with
  | nil => exact ⟨s.rest, rfl, by rw [← hs]; rfl⟩
  | cons v vs ih =>
    cases ks with
    | nil => exact absurd h.length_le.1 (by simp)
    | cons k ks =>
      cases hw : words s.rest with
      | nil =>
        rw [hw] at h
        exact absurd h.length_le.2 (by simp)
      | cons w ws =>
        rw [hw] at h
        obtain ⟨hv, htail⟩ := h
        obtain ⟨r, hr, hstored⟩ :=
          IStream.stored_of_words_eq_cons k.get_local (ks.map (Kind.get (K := K))) hs hw
        rw [Kind.get_of_value? hv] at hstored
        have hrest : Begins ks (words (⟨r, false⟩ : IStream).rest) vs := by
          show Begins ks (words r) vs
          rw [hr]
          exact htail
        obtain ⟨r', hr', hstored'⟩ := ih rfl hrest
        refine ⟨r', ?_, ?_⟩
        · rw [hr', ← hr]
          rfl
        · rw [List.map_cons, hstored, List.nil_append, hstored']
          rfl

/-- **What a message does to the members.** Let its first fields be valid and spell `vs`. Then it
stores some `new`, in the first members, which keep nothing of their old contents, while the others
keep all of theirs. `new` begins with `vs` and is `vs` if these are seven or no further field
follows; if one follows, then what its conversion stores comes next, and nothing else does if the
conversion fails. -/
theorem decode_fields (message : Text) (vs : List (Value K))
    (hvs : Begins kinds (words message) vs) :
    ∃ new : List (Value K), vs <+: new ∧ new.length ≤ 7 ∧
      (∀ cmd : CmdDecoder K,
        (cmd.decodeCmd message).members = new ++ cmd.members.drop new.length) ∧
      (vs.length = 7 → new = vs) ∧
      ((words message).length = vs.length → new = vs) ∧
      ∀ k w, kinds[vs.length]? = some k → (words message)[vs.length]? = some w →
        vs ++ [(k.get w).1.value] <+: new ∧
          ((k.get (K := K) w).1.fail = true → new = vs ++ [(k.get w).1.value]) := by
  obtain ⟨r, hr, hstored⟩ := stored_of_begins (s := IStream.ofText message) rfl hvs
  have hr : words r = (words message).drop vs.length := hr
  have hlen := IStream.length_stored_le (kinds.map (Kind.get (K := K))) (IStream.ofText message)
  refine ⟨_, ⟨_, hstored.symm⟩, hlen, ?_, ?_, ?_, ?_⟩
  · intro cmd
    rw [members_decodeCmd]
    exact IStream.extractAll_eq _ _ rfl
  · intro hseven
    rw [hstored, hseven]
    exact List.append_nil vs
  · intro hnone
    have hempty : words r = [] := by rw [hr, ← hnone, List.drop_length]
    rw [hstored, IStream.stored_of_words_eq_nil _ hempty, List.append_nil]
  -- The first word that is no valid field still stores what its conversion makes of it.
  · intro k w hk hw
    obtain ⟨hlt, hget⟩ := List.getElem?_eq_some_iff.mp hk
    obtain ⟨hlt', hget'⟩ := List.getElem?_eq_some_iff.mp hw
    have hkinds : kinds.drop vs.length = k :: kinds.drop (vs.length + 1) := by
      rw [List.drop_eq_getElem_cons hlt, hget]
    have hwords : words r = w :: (words message).drop (vs.length + 1) := by
      rw [hr, List.drop_eq_getElem_cons hlt', hget']
    obtain ⟨r', -, hnext⟩ := IStream.stored_of_words_eq_cons k.get_local
      ((kinds.drop (vs.length + 1)).map (Kind.get (K := K))) (s := ⟨r, false⟩) rfl hwords
    rw [hstored, hkinds, List.map_cons, hnext]
    constructor
    · exact ⟨_, by rw [List.append_assoc, List.singleton_append]⟩
    · intro hfail
      rw [IStream.stored_of_fail _ hfail]

/-- Two fields, and one that is no number. -/
theorem decode_fields_two :
    ((⟨1, 0, 2, 9, true, true, 3⟩ : CmdDecoder ℚ).decodeCmd "7 0.5 x".toList).members =
      [.int 7, .double (1 / 2), .double 0, .double 9, .bool true, .bool true, .double 3] := by
  have hbegins : Begins kinds (words "7 0.5 x".toList) [Value.int 7, Value.double (1 / 2 : ℚ)] := by
    refine ⟨?_, ?_, trivial⟩ <;> decide +kernel
  obtain ⟨new, -, -, hmembers, -, -, hnext⟩ := decode_fields "7 0.5 x".toList _ hbegins
  have hnew : new = [.int 7, .double (1 / 2), .double 0] := by
    rw [(hnext .double ['x'] rfl (by decide)).2 (by decide +kernel)]
    decide +kernel
  rw [hnew] at hmembers
  exact hmembers _

/-- A message that is no command moves the robot to half a metre per second, with the old rotation
and the old flags. -/
theorem decode_not_atomic :
    (words "7 0.5 x".toList).length < 7 ∧
      (⟨1, 0, 2, 9, true, true, 3⟩ : CmdDecoder ℚ).decodeCmd "7 0.5 x".toList =
        ⟨7, 1 / 2, 0, 9, true, true, 3⟩ := by
  decide +kernel

end RobotFramework
