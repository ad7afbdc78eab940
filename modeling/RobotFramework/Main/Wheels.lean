import RobotFramework.Main.Exit
import RobotFramework.Math.Inverse
import RobotFramework.Networks.Fields

/-!
# The wheels

What the motor controllers are told, as a function of the texts the polls returned. The velocity map
with its timeout counter is a watchdog over the stream of decoded commands
(`velocityMap_eq_expected`): it holds the wheel velocities of the latest command until three polls
in a row have found nothing.

What a command *is* decides what this is worth. On well-formed traffic the stream is the stream of
commands. But the receiver takes every datagram for a command, and what the decoder makes of a
malformed one are the velocities of some earlier command, or of nobody: the counter is reset and the
wheels turn.
-/

namespace RobotFramework.Main

open Cxx Moteus Reactive

variable {K : Type}

/-! ## Velocity maps -/

/-- The component of a motor ID, none outside 1 to 4. -/
def wheelAt [Zero K] (wheelVelocity : Fin 4 → K) (id : Int) : K :=
  if h : 1 ≤ id ∧ id ≤ 4 then wheelVelocity ⟨(id - 1).toNat, by omega⟩ else 0

@[simp] theorem wheelAt_zero [Zero K] (id : Int) : wheelAt (fun _ => (0 : K)) id = 0 := by
  unfold wheelAt
  split <;> rfl

theorem wheelAt_succ [Zero K] (v : Fin 4 → K) (i : Fin 4) : wheelAt v ((i : Int) + 1) = v i := by
  unfold wheelAt
  rw [dif_pos ⟨by omega, by omega⟩]
  congr 1
  ext
  simp

theorem velocityMapOf_getElem? (v : Fin 4 → K) (id : Int) :
    (velocityMapOf v)[id]? =
      if h : 1 ≤ id ∧ id ≤ 4 then some (v ⟨(id - 1).toNat, by omega⟩) else none := by
  simp only [velocityMapOf, Std.TreeMap.ofList_eq_insertMany_empty, Std.TreeMap.insertMany_cons,
    Std.TreeMap.insertMany_nil, Std.TreeMap.getElem?_insert, Std.TreeMap.getElem?_emptyc,
    Std.LawfulEqCmp.compare_eq_iff_eq]
  by_cases h : 1 ≤ id ∧ id ≤ 4
  · rw [dif_pos h]
    obtain rfl | rfl | rfl | rfl : id = 1 ∨ id = 2 ∨ id = 3 ∨ id = 4 := by omega
    all_goals rfl
  · rw [dif_neg h, if_neg (by omega), if_neg (by omega), if_neg (by omega), if_neg (by omega)]

theorem velocityMapOf_getD [Zero K] (v : Fin 4 → K) (id : Int) :
    (velocityMapOf v)[id]?.getD 0 = wheelAt v id := by
  rw [velocityMapOf_getElem?]
  unfold wheelAt
  split <;> rfl

theorem zeroMap_getD [Zero K] (id : Int) : (zeroMap (K := K))[id]?.getD 0 = 0 :=
  (velocityMapOf_getD (fun _ => 0) id).trans (wheelAt_zero id)

/-! ## The stream of decoded commands -/

section

variable [RatCast K]

theorem stop_not_wellFormed : ¬ WellFormed K STOP := by
  rintro ⟨⟩

/-- What the texts of some polls leave in the decoder, kicks apart. -/
def held (cmd : CmdDecoder K) (texts : List Text) : CmdDecoder K :=
  texts.foldl (fun cmd msg => if msg = TIMEOUT ∨ msg = STOP then cmd else cmd.decodeCmd msg) cmd

/-- What the receiver takes for commands: whatever it decodes, with a gap for each poll that found
nothing. -/
def decoded (cmd : CmdDecoder K) : List Text → List (Option (CmdDecoder K))
  | [] => []
  | msg :: texts =>
    (if msg = TIMEOUT ∨ msg = STOP then none else some (cmd.decodeCmd msg)) ::
      decoded (held cmd [msg]) texts

theorem held_snoc (cmd : CmdDecoder K) (texts : List Text) (msg : Text) :
    held cmd (texts ++ [msg]) =
      if msg = TIMEOUT ∨ msg = STOP then held cmd texts
      else (held cmd texts).decodeCmd msg := by
  unfold held
  rw [List.foldl_append]
  rfl

/-- What the texts of some polls leave in a member of the decoder: the latest value that one of them
has for it, or what it held at first. -/
def lastField (cmd : CmdDecoder K) (texts : List Text) (i : Nat) : Option (Value K) :=
  ((texts.filter fun msg => msg ≠ TIMEOUT ∧ msg ≠ STOP).filterMap (field? · i)).getLast?.or
    cmd.members[i]?

theorem member_held (cmd : CmdDecoder K) (texts : List Text) (i : Nat) :
    (held cmd texts).members[i]? = lastField cmd texts i := by
  induction texts using List.reverseRecOn with
  | nil => rfl
  | append_singleton texts msg ih =>
    have hlast : lastField cmd (texts ++ [msg]) i =
        if msg = TIMEOUT ∨ msg = STOP then lastField cmd texts i
        else (field? msg i).or (lastField cmd texts i) := by
      unfold lastField
      rw [List.filter_append, List.filterMap_append]
      by_cases hmsg : msg = TIMEOUT ∨ msg = STOP
      · have hskip : ¬ (msg ≠ TIMEOUT ∧ msg ≠ STOP) := fun h => hmsg.elim h.1 h.2
        simp [hskip, hmsg]
      · have htake : msg ≠ TIMEOUT ∧ msg ≠ STOP := not_or.mp hmsg
        cases hfield : field? (K := K) msg i <;> simp [htake, hfield]
    rw [held_snoc, hlast]
    split
    · exact ih
    · rw [member_decodeCmd, ih]

theorem decoded_append (cmd : CmdDecoder K) (texts recent : List Text) :
    decoded cmd (texts ++ recent) = decoded cmd texts ++ decoded (held cmd texts) recent := by
  induction texts generalizing cmd with
  | nil => rfl
  | cons msg texts ih =>
    rw [List.cons_append, decoded, ih, decoded, List.cons_append]
    rfl

theorem decoded_snoc (cmd : CmdDecoder K) (texts : List Text) (msg : Text) :
    decoded cmd (texts ++ [msg]) =
      decoded cmd texts ++
        [if msg = TIMEOUT ∨ msg = STOP then none
          else some ((held cmd texts).decodeCmd msg)] :=
  decoded_append cmd texts [msg]

/-- The latest decoded command is what the decoder holds. -/
theorem latest_decoded (cmd : CmdDecoder K) (texts : List Text) :
    (Watchdog.latest (decoded cmd texts)).getD cmd = held cmd texts := by
  induction texts using List.reverseRecOn with
  | nil => rfl
  | append_singleton texts msg ih =>
    rw [decoded_snoc, held_snoc]
    split
    · rw [Watchdog.latest_snoc_none, ih]
    · rw [Watchdog.latest_snoc_some, Option.getD_some]

@[simp] theorem length_decoded (cmd : CmdDecoder K) (texts : List Text) :
    (decoded cmd texts).length = texts.length := by
  induction texts generalizing cmd with
  | nil => rfl
  | cons msg texts ih => rw [decoded, List.length_cons, List.length_cons, ih]

/-- The gaps in what is decoded are the polls that found nothing. -/
theorem decoded_gaps (cmd : CmdDecoder K) {texts : List Text} (hstop : STOP ∉ texts) :
    (∀ x ∈ decoded cmd texts, x = none) ↔ ∀ msg ∈ texts, msg = TIMEOUT := by
  induction texts generalizing cmd with
  | nil => simp [decoded]
  | cons msg texts ih =>
    have hne : msg ≠ STOP := fun h => hstop (h ▸ List.mem_cons_self)
    rw [decoded, List.forall_mem_cons, List.forall_mem_cons,
      ih _ fun h => hstop (List.mem_cons_of_mem _ h)]
    simp [hne]

/-- **On well-formed traffic what is decoded is what was sent**, whatever the decoder held at
first. -/
theorem decoded_wellFormed (cmd : CmdDecoder K) {texts : List Text}
    (h : ∀ msg ∈ texts, msg = TIMEOUT ∨ WellFormed K msg) :
    decoded cmd texts = texts.map command? := by
  induction texts generalizing cmd with
  | nil => rfl
  | cons msg texts ih =>
    rw [decoded, List.map_cons, ih _ fun m hm => h m (List.mem_cons_of_mem _ hm)]
    congr 1
    rcases h msg List.mem_cons_self with rfl | hwf
    · rw [if_pos (Or.inl rfl)]
      rfl
    · obtain ⟨c, hc⟩ := Option.isSome_iff_exists.mp hwf
      rw [hc, CmdDecoder.decodeCmd_wellFormed hc, if_neg]
      rintro (rfl | rfl) <;> cases hc

end

/-! ## The velocity map is a watchdog over that stream -/

section

variable [Field K] [LinearOrder K] [Libm K]

def wheelMap (wheel : WheelMath K) (cmd : CmdDecoder K) : Std.TreeMap Int K :=
  velocityMapOf (wheel.calculate cmd.velocityX cmd.velocityY cmd.velocityW)

theorem wheelMap_congr (wheel : WheelMath K) {c d : CmdDecoder K} (h : c.clearKick = d.clearKick) :
    wheelMap wheel c = wheelMap wheel d :=
  calc wheelMap wheel c = wheelMap wheel c.clearKick := rfl
    _ = wheelMap wheel d.clearKick := by rw [h]
    _ = wheelMap wheel d := rfl

/-- The link is what the texts make of it: the decoder but for its kick flag, and the watchdog over
the decoded commands. -/
structure Link.Follows (wheel : WheelMath K) (cmd : CmdDecoder K) (texts : List Text) (l : Link K) :
    Prop where
  cmd_eq : l.cmd.clearKick = (held cmd texts).clearKick
  watchdog_eq : (⟨l.timeoutCount, l.velocityMap⟩ : Watchdog.State 32 (Std.TreeMap Int K)) =
    (decoded cmd texts).foldl (Watchdog.step TIMEOUT_LIMIT zeroMap (wheelMap wheel)) ⟨0, ∅⟩

theorem Link.Follows.init (wheel : WheelMath K) (cmd : CmdDecoder K) :
    Link.Follows wheel cmd [] ⟨cmd, ∅, 0⟩ := ⟨rfl, rfl⟩

theorem Link.Follows.poll {wheel : WheelMath K} {cmd : CmdDecoder K} {texts : List Text}
    {l : Link K} (h : l.Follows wheel cmd texts) {msg : Text} (hstop : msg ≠ STOP) :
    (l.poll wheel msg).Follows wheel cmd (texts ++ [msg]) := by
  obtain ⟨hcmd, hwatch⟩ := h
  by_cases ht : msg = TIMEOUT
  · have hpoll : l.poll wheel msg =
        { l with
            timeoutCount := l.timeoutCount + 1
            velocityMap :=
              if TIMEOUT_LIMIT ≤ (l.timeoutCount + 1).toInt then zeroMap else l.velocityMap } :=
      if_pos ht
    rw [hpoll]
    refine ⟨?_, ?_⟩
    · rw [held_snoc, if_pos (Or.inl ht)]
      exact hcmd
    · rw [decoded_snoc, if_pos (Or.inl ht), List.foldl_append, ← hwatch]
      rfl
  · have hne : ¬ (msg = TIMEOUT ∨ msg = STOP) := fun h => h.elim ht hstop
    have hdecode := CmdDecoder.decodeCmd_clearKick hcmd msg
    have hpoll : l.poll wheel msg =
        ⟨l.cmd.decodeCmd msg, wheelMap wheel (l.cmd.decodeCmd msg), 0⟩ :=
      (if_neg ht).trans (if_neg hstop)
    rw [hpoll]
    refine ⟨?_, ?_⟩
    · rw [held_snoc, if_neg hne]
      exact hdecode
    · rw [decoded_snoc, if_neg hne, List.foldl_append, wheelMap_congr wheel hdecode]
      rfl

/-- **The link follows the texts**: kicks are the only other thing that changes it, and they change
the kick flag alone. -/
theorem Link.follows_foldl {wheel : WheelMath K} {cmd : CmdDecoder K} {texts : List Text}
    {l : Link K} (h : l.Follows wheel cmd texts) {os : List (Effect K)} (hstop : STOP ∉ polls os) :
    (os.foldl (Link.observe wheel) l).Follows wheel cmd (texts ++ polls os) := by
  induction os generalizing l texts with
  | nil => simpa using h
  | cons o os ih =>
    rw [List.foldl_cons]
    cases o with
    | recv msg =>
      have hpolls : polls (Effect.recv msg :: os) = [msg] ++ polls os := rfl
      rw [hpolls] at hstop ⊢
      rw [← List.append_assoc]
      refine ih (h.poll fun heq => hstop ?_) fun hmem => hstop (List.mem_append_right _ hmem)
      rw [heq]
      exact List.mem_append_left _ List.mem_cons_self
    | command byte ok =>
      refine ih ?_ hstop
      simp only [Link.observe]
      by_cases hb : byte = 'K'
      · -- The kick flag, which this takes back, is the one field that `cmd_eq` does not look at.
        rw [if_pos hb]
        exact ⟨h.cmd_eq, h.watchdog_eq⟩
      · rw [if_neg hb]
        exact h
    | _ => exact ih h hstop

theorem Link.Follows.velocityMap_eq_expected {wheel : WheelMath K} {cmd : CmdDecoder K}
    {texts : List Text} {l : Link K} (h : l.Follows wheel cmd texts) :
    l.velocityMap = Watchdog.expected 3 zeroMap (wheelMap wheel) ∅ (decoded cmd texts) := by
  have hwatch := h.watchdog_eq
  have hrun : (decoded cmd texts).foldl (Watchdog.step (3 : Nat) zeroMap (wheelMap wheel))
      (⟨0, ∅⟩ : Watchdog.State 32 (Std.TreeMap Int K)) = ⟨_, _⟩ :=
    Watchdog.run_eq (by decide) (by decide) (decoded cmd texts)
  exact congrArg Watchdog.State.held (hwatch.trans hrun)

variable [FloorRing K]

theorem World.link_follows (w : World K) {es : List (Event K)}
    (hstop : STOP ∉ polls (w.history es)) :
    (w.after es).link.Follows w.config.wheel w.start.cmd (polls (w.history es)) := by
  rw [World.polls_history] at hstop ⊢
  have := Link.follows_foldl (Link.Follows.init w.config.wheel w.start.cmd) hstop
  rw [List.nil_append] at this
  exact (link_run w.config w.start es).symm ▸ this

/-- As long as no `STOP` was polled, the dribble flag is what the texts left in the decoder. -/
theorem World.dribble_eq_held (w : World K) {es : List (Event K)}
    (hstop : STOP ∉ polls (w.history es)) :
    (w.after es).cmd.dribble = (held w.start.cmd (polls (w.history es))).dribble := by
  have hcmd := congrArg CmdDecoder.dribble (w.link_follows hstop).cmd_eq
  exact hcmd

theorem World.velocityMap_of_command {w : World K} {es : List (Event K)} {earlier : List Text}
    {msg : Text} {cmd : CmdDecoder K} (hpolls : polls (w.history es) = earlier ++ [msg])
    (hcmd : command? msg = some cmd) : (w.after es).velocityMap = wheelMap w.config.wheel cmd := by
  have hne : ¬ (msg = TIMEOUT ∨ msg = STOP) := by
    rintro (rfl | rfl) <;> cases hcmd
  have hstop := World.stop_not_mem hpolls (List.cons_ne_nil _ _) fun hmem =>
    hne (Or.inr (List.mem_singleton.mp hmem).symm)
  have hmap : (w.after es).velocityMap = _ := (w.link_follows hstop).velocityMap_eq_expected
  rw [hpolls, decoded_snoc, if_neg hne, CmdDecoder.decodeCmd_wellFormed hcmd] at hmap
  rw [hmap, Watchdog.expected_snoc_some (by decide)]

/-! ## Well-formed traffic -/

/-- **What a motor is to be told**, from the texts of the polls: the component of the latest
command, as long as fewer than three polls have found nothing since. -/
def commanded (wheel : WheelMath K) (texts : List Text) (id : Int) : K :=
  match Watchdog.latest (texts.map (command? (K := K))) with
  | some c =>
    if Watchdog.misses (texts.map (command? (K := K))) < 3 then
      wheelAt (wheel.calculate c.velocityX c.velocityY c.velocityW) id
    else 0
  | none => 0

omit [FloorRing K] in
theorem expected_getD (wheel : WheelMath K) (texts : List Text) (id : Int) :
    (Watchdog.expected 3 zeroMap (wheelMap wheel) ∅ (texts.map (command? (K := K))))[id]?.getD 0 =
      commanded wheel texts id := by
  unfold Watchdog.expected commanded
  by_cases hm : 3 ≤ Watchdog.misses (texts.map (command? (K := K)))
  · rw [if_pos hm, zeroMap_getD]
    split
    · rw [if_neg (by omega)]
    · rfl
  · rw [if_neg hm]
    cases Watchdog.latest (texts.map (command? (K := K))) with
    | none => simp
    | some c =>
      simp only [Option.map_some, Option.getD_some]
      rw [if_pos (by omega)]
      exact velocityMapOf_getD _ _

theorem frames_motor {cfg : Config K} {s : State K} (input : Input K) (hpc : s.pc = .motor)
    (hdue : s.cycles cfg) :
    frames (process cfg s (.step input)).2 =
      Telemetry.commandFrames cfg.controllers s.velocityMap := by
  rw [process_motor cfg input hpc, motor_due hdue, frames_append]
  have hlogs : frames ((s.servoStatus cfg input).flatMap fun p => logMotor cfg p.1 p.2) = [] := by
    refine List.filterMap_eq_nil_iff.mpr fun o ho => ?_
    obtain ⟨p, -, ho⟩ := List.mem_flatMap.mp ho
    rcases List.mem_cons.mp ho with rfl | ho
    · rfl
    · split at ho
      · rw [List.mem_singleton.mp ho]
        rfl
      · cases ho
  rw [hlogs, List.append_nil]
  unfold frames
  rw [List.filterMap_map]
  exact List.filterMap_some

/-- **Exact wheel commands on well-formed traffic.** Every motor cycle sends each controller one
frame, with the velocity it is to be told. -/
theorem World.cycle_sends_commanded (w : World K) (es : List (Event K)) (input : Input K)
    (htraffic : ∀ msg ∈ polls (w.history es), msg = TIMEOUT ∨ WellFormed K msg)
    (hpc : (w.after es).pc = .motor) (hdue : (w.after es).cycles w.config) :
    frames (process w.config (w.after es) (.step input)).2 =
      w.config.controllers.toList.map fun p =>
        (p.1, p.2.makePosition
          { position := .nan
            velocity := commanded w.config.wheel (polls (w.history es)) p.1 }) := by
  have hstop : STOP ∉ polls (w.history es) := by
    intro hmem
    rcases htraffic STOP hmem with h | h
    · exact TIMEOUT_ne_STOP h.symm
    · exact stop_not_wellFormed h
  have hmap : (w.after es).velocityMap = _ := (w.link_follows hstop).velocityMap_eq_expected
  rw [decoded_wellFormed _ htraffic] at hmap
  rw [frames_motor input hpc hdue, Telemetry.commandFrames, hmap]
  simp only [expected_getD]

theorem World.cycle_sends_commanded_bench :
    let w := World.bench ℝ
    let es := arrival "1 0.5 0 0 0 0 0" :: (turn ℝ).take 3
    frames (process w.config (w.after es) (.step (.bench ℝ))).2 =
      w.config.controllers.toList.map fun p =>
        (p.1, p.2.makePosition
          { position := .nan
            velocity := commanded w.config.wheel (polls (w.history es)) p.1 }) := by
  refine (World.bench ℝ).cycle_sends_commanded _ _ (fun msg hmsg => Or.inr ?_) rfl rfl
  have hpolls : msg ∈ ["1 0.5 0 0 0 0 0".toList] := hmsg
  rw [List.mem_singleton.mp hpolls]
  decide +kernel

/-! ## Arbitrary traffic -/

/-- The text of a poll that returned no command: `TIMEOUT`, or a malformed datagram. -/
def Commandless (K : Type) [RatCast K] (msg : Text) : Prop := msg ≠ STOP ∧ ¬ WellFormed K msg

/-- The wheels are stopped: the velocity map is empty or zero for every wheel, and no step taken in
this state commands a velocity but zero. -/
structure WheelsStopped (cfg : Config K) (s : State K) : Prop where
  map_zero : s.velocityMap.isEmpty = true ∨
    ∀ id : Int, 1 ≤ id → id ≤ 4 → s.velocityMap[id]? = some 0
  frames_zero : ∀ input, ∀ p ∈ frames (process cfg s (.step input)).2, commandsVelocity p.2 →
    p.2.command = .position { position := .nan, velocity := 0 }

/-- The wheels are stopped where the velocity map is that of some wheel velocities exactly when
these are zero. -/
theorem wheelsStopped_iff {cfg : Config K} {s : State K} {v : Fin 4 → K}
    (h : s.velocityMap = velocityMapOf v) : WheelsStopped cfg s ↔ v = fun _ => 0 := by
  constructor
  · rintro ⟨hmap | hmap, -⟩
    · rw [h] at hmap
      cases hmap
    · funext i
      have hi := hmap (i + 1) (by omega) (by omega)
      rw [h, velocityMapOf_getElem?, dif_pos (by omega)] at hi
      have := Option.some.inj hi
      simpa using this
  · rintro rfl
    refine ⟨Or.inr fun id h₁ h₄ => ?_, fun input p hp hv => ?_⟩
    · rw [h, velocityMapOf_getElem?, dif_pos ⟨h₁, h₄⟩]
    · obtain ⟨-, -, hpc⟩ := motor_of_commandsVelocity hp hv
      by_cases hdue : s.cycles cfg
      · rw [frames_motor input hpc hdue, Telemetry.commandFrames, h] at hp
        obtain ⟨q, -, rfl⟩ := List.mem_map.mp hp
        show ModeCommand.position _ = _
        rw [velocityMapOf_getD, wheelAt_zero]
      · rw [process_motor cfg input hpc, motor_idle hdue] at hp
        cases hp

/-- Behind three polls that returned no command the velocity map is zero if they found nothing, and
otherwise that of the velocities the decoder was left with. -/
theorem World.velocityMap_of_commandless {w : World K} {es : List (Event K)}
    {earlier recent : List Text} (hpolls : polls (w.history es) = earlier ++ recent)
    (hlen : recent.length = 3) (hless : ∀ msg ∈ recent, Commandless K msg) :
    (w.after es).velocityMap =
      if ∀ msg ∈ recent, msg = TIMEOUT then zeroMap
      else wheelMap w.config.wheel (held w.start.cmd (earlier ++ recent)) := by
  have hne : recent ≠ [] := by
    rintro rfl
    cases hlen
  have hstop := World.stop_not_mem hpolls hne fun hmem => (hless _ hmem).1 rfl
  have hmap : (w.after es).velocityMap = _ := (w.link_follows hstop).velocityMap_eq_expected
  rw [hpolls] at hmap hstop
  rw [hmap, decoded_append]
  have hgaps := decoded_gaps (held w.start.cmd earlier) fun h =>
    hstop (List.mem_append_right earlier h)
  by_cases ht : ∀ msg ∈ recent, msg = TIMEOUT
  · rw [if_pos ht]
    exact Watchdog.expected_of_forall _ ((length_decoded _ _).trans hlen) (hgaps.mpr ht)
  · -- A malformed datagram among the three was decoded like a command, and ended the count.
    have hsome : ∃ x ∈ decoded (held w.start.cmd earlier) recent, x ≠ none := by
      by_contra hnone
      push Not at hnone
      exact ht (hgaps.mp hnone)
    obtain ⟨cmd, hlatest, heq⟩ := Watchdog.expected_of_exists zeroMap ∅ (wheelMap w.config.wheel)
      (decoded w.start.cmd earlier) ((length_decoded _ _).trans hlen) hsome
    have hheld := latest_decoded w.start.cmd (earlier ++ recent)
    rw [decoded_append, hlatest, Option.getD_some] at hheld
    rw [if_neg ht, heq, hheld]

/-- A command that makes no wheel of the robot turn: it has no motion in it, or is beyond a limit and
the mode lets nothing through. -/
def World.Idles (w : World ℝ) (velocityX velocityY velocityW : ℝ) : Prop :=
  let exceeded := WheelMath.exceeded (WheelMath.initalizeMath w.velocityLimits)
    velocityX velocityY velocityW
  velocityX = 0 ∧ velocityY = 0 ∧ velocityW = 0 ∨
    w.mode = 0 ∧ exceeded ≠ [] ∨
    w.mode = 1 ∧ (∃ c ∈ exceeded, c.1 / |c.2| = 0) ∧ ∀ c ∈ exceeded, 0 ≤ c.1 / |c.2|

/-- The three velocities of the decoder, as members. -/
theorem velocities_held (cmd : CmdDecoder ℝ) (texts : List Text) (x y z : ℝ) :
    (lastField cmd texts 1 = some (.double x) ∧ lastField cmd texts 2 = some (.double y) ∧
        lastField cmd texts 3 = some (.double z)) ↔
      (held cmd texts).velocityX = x ∧ (held cmd texts).velocityY = y ∧
        (held cmd texts).velocityW = z := by
  simp [← member_held, CmdDecoder.members]

theorem command?_rotation :
    command? (K := ℝ) "1 0 0 0.1 0 0 0".toList = some ⟨1, 0, 0, 1 / 10, false, false, 0⟩ := by
  have h : command? (K := ℚ) "1 0 0 0.1 0 0 0".toList =
      some ⟨1, 0, 0, 1 / 10, false, false, 0⟩ := by
    decide +kernel
  rw [command?_cast, h]
  simp [CmdDecoder.cast]

theorem within_rotation : (World.bench ℝ).config.wheel.Within 0 0 (1 / 10) := by
  refine ⟨?_, ?_, ?_⟩ <;>
    norm_num [World.config, World.bench, WheelMath.new, WheelMath.initalizeMath]

/-- While the map is that of the rotation the wheels turn. -/
theorem rotation_turns {s : State ℝ} {cmd : CmdDecoder ℝ}
    (hmap : s.velocityMap = wheelMap (World.bench ℝ).config.wheel cmd) (hx : cmd.velocityX = 0)
    (hy : cmd.velocityY = 0) (hw : cmd.velocityW = 1 / 10) :
    ¬ WheelsStopped (World.bench ℝ).config s := by
  intro hstopped
  rw [wheelMap, hx, hy, hw] at hmap
  have hzero := congrFun ((wheelsStopped_iff hmap).mp hstopped) 0
  rw [WheelMath.calculate_of_within within_rotation, WheelMath.kinematics_apply,
    WheelMath.wheelRow, zero_mul, zero_mul, zero_add, zero_add] at hzero
  have hpos : 0 < 1 / 10 * (World.bench ℝ).config.wheel.wheelDist 0 / WHEEL_RADIUS ℝ :=
    div_pos (mul_pos (by norm_num) (WheelMath.wheelDist_pos _ _ 0)) WHEEL_RADIUS_pos
  exact hpos.ne' hzero

end

end RobotFramework.Main
