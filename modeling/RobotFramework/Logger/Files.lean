import RobotFramework.Logger.Framing

/-!
# Which file an entry goes to

The name of a file is made of the component and of `sub`, or the component once more. So two keys of
one component have files of their own (`contents_eq_fileText`), unless a `sub` has the name of its
component.
-/

namespace RobotFramework

open Cxx Reactive

variable {K : Type}

/-- A call under the component, whose `sub` is none of its name. -/
def LogCall.Own (component : Text) (call : LogCall K) : Prop :=
  call.component = component ∧ call.sub ≠ some component

theorem LogCall.Own.key_cases {component : Text} {call : LogCall K} (h : call.Own component) :
    (call.key = component ∧ call.stem = component) ∨
      (call.key = component ++ '/' :: call.stem ∧ call.stem ≠ component) := by
  obtain ⟨rfl, hsub⟩ := h
  unfold key stem
  cases hs : call.sub with
  | none => exact .inl ⟨rfl, rfl⟩
  | some s =>
    cases s with
    | nil => exact .inl ⟨rfl, rfl⟩
    | cons c s =>
      rw [hs] at hsub
      exact .inr ⟨rfl, fun heq => hsub (congrArg some heq)⟩

/-- The key and the file say the same. -/
theorem LogCall.Own.key_eq_iff {component : Text} {call call' : LogCall K} (h : call.Own component)
    (h' : call'.Own component) : call.key = call'.key ↔ call.stem = call'.stem := by
  have hlonger : ∀ t : Text, component ≠ component ++ '/' :: t := by
    intro t heq
    have hlength := congrArg List.length heq
    simp at hlength
  rcases h.key_cases with ⟨hkey, hstem⟩ | ⟨hkey, hstem⟩
  · rcases h'.key_cases with ⟨hkey', hstem'⟩ | ⟨hkey', hstem'⟩
    · rw [hkey, hkey', hstem, hstem']
    · rw [hkey, hkey', hstem]
      exact iff_of_false (hlonger _) (Ne.symm hstem')
  · rcases h'.key_cases with ⟨hkey', hstem'⟩ | ⟨hkey', hstem'⟩
    · rw [hkey, hkey', hstem']
      exact iff_of_false (Ne.symm (hlonger _)) hstem
    · rw [hkey, hkey']
      simp

namespace Logger

theorem filename_eq_iff (l : Logger K) (component stem stem' : Text) :
    l.filename component stem = l.filename component stem' ↔ stem = stem' := by
  simp [filename]

/-- Every stream that is open is open on the file of its key. -/
def InPlace (component : Text) (l : Logger K) : Prop :=
  ∀ (key : Text) (file : OFStream) (path : Text), l.files[key]? = some file →
    file.file = some path → ∃ call : LogCall K, call.Own component ∧ call.key = key ∧
      path = l.filename component call.stem

/-- What was written is in the files of its keys. -/
def Filed (component : Text) (l : Logger K) (os : List (Written K)) : Prop :=
  ∀ w ∈ os, ∃ call : LogCall K, call.Own component ∧ call.key = w.key ∧
    w.file = l.filename component call.stem

/-- A call, or a part of one, keeps the streams in place, and writes to the files of the keys. -/
structure Places (component : Text) (l : Logger K) (r : Logger K × List (Written K)) : Prop where
  inPlace : r.1.InPlace component
  directory : r.1.logDirectory = l.logDirectory
  session : r.1.sessionTimestamp = l.sessionTimestamp
  filed : Filed component l r.2

variable {component : Text} {l l' : Logger K}

theorem filename_congr (hdirectory : l'.logDirectory = l.logDirectory)
    (hsession : l'.sessionTimestamp = l.sessionTimestamp) (component stem : Text) :
    l'.filename component stem = l.filename component stem := by
  rw [filename, filename, hdirectory, hsession]

theorem Filed.nil : Filed component l [] := fun _ hw => by cases hw

theorem Filed.append {os os' : List (Written K)} (h : Filed component l os)
    (h' : Filed component l os') : Filed component l (os ++ os') := by
  intro w hw
  rcases List.mem_append.mp hw with hw | hw
  · exact h w hw
  · exact h' w hw

theorem Places.trans {r r' : Logger K × List (Written K)} (h : Places component l r)
    (h' : Places component r.1 r') : Places component l (r'.1, r.2 ++ r'.2) := by
  refine ⟨h'.inPlace, h'.directory.trans h.directory, h'.session.trans h.session, ?_⟩
  refine h.filed.append fun w hw => ?_
  obtain ⟨call, hown, hkey, hfile⟩ := h'.filed w hw
  exact ⟨call, hown, hkey, hfile.trans (filename_congr h.directory h.session _ _)⟩

/-- Only the streams and the names matter. -/
theorem InPlace.congr (h : l.InPlace component) (hfiles : l'.files = l.files)
    (hdirectory : l'.logDirectory = l.logDirectory)
    (hsession : l'.sessionTimestamp = l.sessionTimestamp) : l'.InPlace component := by
  intro key file path hfile hpath
  rw [hfiles] at hfile
  obtain ⟨call, hown, hkey, heq⟩ := h key file path hfile hpath
  exact ⟨call, hown, hkey, heq.trans (filename_congr hdirectory hsession _ _).symm⟩

theorem Places.silent (h : l'.InPlace component) (hdirectory : l'.logDirectory = l.logDirectory)
    (hsession : l'.sessionTimestamp = l.sessionTimestamp) : Places component l (l', []) :=
  ⟨h, hdirectory, hsession, Filed.nil⟩

/-- A stream under a key of its own, in a place of its own. -/
theorem InPlace.insert (h : l.InPlace component) {key : Text} {file : OFStream}
    (hfile : ∀ path, file.file = some path → ∃ call : LogCall K, call.Own component ∧
      call.key = key ∧ path = l.filename component call.stem) :
    InPlace component { l with files := l.files.insert key file } := by
  intro key' file' path hfile' hpath
  rw [getElem?_insert] at hfile'
  split at hfile'
  · rename_i heq
    subst heq
    cases hfile'
    exact hfile path hpath
  · exact h key' file' path hfile' hpath

/-- What is in `files` is in place; what is not is closed. -/
theorem InPlace.getD (h : l.InPlace component) {key path : Text}
    (hpath : (l.files[key]?.getD {}).file = some path) :
    ∃ call : LogCall K, call.Own component ∧ call.key = key ∧
      path = l.filename component call.stem := by
  cases hfile : l.files[key]? with
  | none =>
    rw [hfile] at hpath
    cases hpath
  | some file =>
    rw [hfile] at hpath
    exact h key file path hfile hpath

theorem InPlace.openFile (h : l.InPlace component) {call : LogCall K} (hown : call.Own component)
    (env : LogEnv) :
    (l.openFile env call.key (l.filename component call.stem)).InPlace component := by
  refine h.insert fun path hpath => ?_
  unfold OFStream.openFile at hpath
  split_ifs at hpath
  · exact h.getD hpath
  · cases hpath
    exact ⟨call, hown, rfl, rfl⟩
  · exact h.getD hpath

theorem InPlace.ensureOpen (h : l.InPlace component) (hsession : l.sessionTimestamp ≠ [])
    {call : LogCall K} (hown : call.Own component) (env : LogEnv) :
    Places component l (l.ensureOpen env call.key call.component call.stem, []) := by
  have hopened := h.openFile hown env
  have heq : call.component = component := hown.1
  unfold Logger.ensureOpen
  rw [heq]
  simp only [hsession, if_false]
  split_ifs
  · exact .silent h rfl rfl
  · exact .silent hopened rfl rfl
  · exact .silent (hopened.congr rfl rfl rfl) rfl rfl

theorem InPlace.flush (h : l.InPlace component) (key : Text) :
    Places component l (l.flush key) := by
  have hinserted : InPlace component
      { l with files := l.files.insert key (l.files[key]?.getD {}) } :=
    h.insert fun path hpath => h.getD hpath
  unfold Logger.flush
  dsimp only
  split
  · rename_i path hpath
    refine ⟨hinserted.congr rfl rfl rfl, rfl, rfl, fun w hw => ?_⟩
    split at hw
    · cases hw
    · obtain ⟨entry, -, rfl⟩ := List.mem_map.mp hw
      exact h.getD hpath
  · exact .silent (hinserted.congr rfl rfl rfl) rfl rfl

theorem InPlace.push (h : l.InPlace component) (key : Text) (entry : LogEntry K) :
    Places component l (l.push key entry) := by
  unfold Logger.push
  dsimp only
  have hbuffered (buffer : List (LogEntry K)) :
      InPlace component { l with buffers := l.buffers.insert key buffer } := h.congr rfl rfl rfl
  split
  · have hflush := (hbuffered (l.buffers[key]?.getD [] ++ [entry])).flush key
    exact ⟨hflush.inPlace, hflush.directory, hflush.session, hflush.filed⟩
  · exact .silent (hbuffered _) rfl rfl

theorem InPlace.log (h : l.InPlace component) (hsession : l.sessionTimestamp ≠ []) (env : LogEnv)
    {call : LogCall K} (hown : call.Own component) : Places component l (l.log env call) := by
  have hopened := h.ensureOpen hsession hown env
  rw [log_eq]
  exact hopened.trans (hopened.inPlace.push _ _)

theorem InPlace.flushKeys (h : l.InPlace component) (keys : List Text) :
    Places component l (Logger.flushKeys keys l) := by
  induction keys generalizing l with
  | nil => exact .silent h rfl rfl
  | cons key keys ih =>
    have hflush := h.flush key
    exact hflush.trans (ih hflush.inPlace)

theorem InPlace.closeAll (h : l.InPlace component) : Places component l l.closeAll := by
  have hflush := h.flushKeys l.buffers.keys
  refine ⟨fun key file path hfile => ?_, hflush.directory, hflush.session, hflush.filed⟩
  have hnone : (∅ : Std.TreeMap Text OFStream)[key]? = some file := hfile
  rw [Std.TreeMap.getElem?_emptyc] at hnone
  cases hnone

/-- A call behind `initialize`, of the component. -/
def CallOf (component : Text) : Call K → Prop
  | .initializeComponents _ => False
  | .log call => call.Own component
  | _ => True

theorem InPlace.calls (h : l.InPlace component) (hsession : l.sessionTimestamp ≠ [])
    {e : Call K × LogEnv} (he : CallOf component e.1) : Places component l (Logger.calls l e) := by
  obtain ⟨call, env⟩ := e
  cases call with
  | initializeComponents components => exact absurd he id
  | log call => exact h.log hsession env he
  | flushAll => exact h.flushKeys _
  | closeAll => exact h.closeAll

theorem InPlace.run (h : l.InPlace component) (hsession : l.sessionTimestamp ≠ [])
    {es : List (Call K × LogEnv)} (hes : ∀ e ∈ es, CallOf component e.1) :
    Places component l (Logger.calls.after l es, Logger.calls.trace l es) := by
  induction es generalizing l with
  | nil => exact .silent h rfl rfl
  | cons e es ih =>
    have hcall := h.calls hsession (hes e List.mem_cons_self)
    have hnext : (Logger.calls l e).1.sessionTimestamp ≠ [] := by
      rw [hcall.session]
      exact hsession
    exact hcall.trans (ih hcall.inPlace hnext fun f hf => hes f (List.mem_cons_of_mem _ hf))

/-- The first call: the component has its file. -/
theorem places_start (dir : Text) (env : LogEnv) (component : Text) :
    InPlace component ((new dir : Logger K).initializeComponents env [component]).1 ∧
    ((new dir : Logger K).initializeComponents env [component]).1.sessionTimestamp =
      env.localTime := by
  let l : Logger K :=
    { logDirectory := dir, startTime := env.now, sessionTimestamp := env.localTime }
  let call : LogCall K := { component := component, level := .INFO }
  have hown : call.Own component := ⟨rfl, by simp [call]⟩
  have hnew : l.InPlace component := by
    intro key file path hfile
    have hnone : (∅ : Std.TreeMap Text OFStream)[key]? = some file := hfile
    rw [Std.TreeMap.getElem?_emptyc] at hnone
    cases hnone
  have hopened := hnew.openFile hown env
  show (openComponents env [component] l).1.InPlace component ∧
    (openComponents env [component] l).1.sessionTimestamp = env.localTime
  rw [openComponents]
  split
  · exact ⟨hopened, rfl⟩
  · exact ⟨hopened.congr rfl rfl rfl, rfl⟩

theorem contents_of_iff [Field K] [LinearOrder K] [FloorRing K] {file key : Text}
    {os : List (Written K)} (h : ∀ w ∈ os, w.file = file ↔ w.key = key) :
    contents file os = fileText key os := by
  induction os with
  | nil => rfl
  | cons w os ih =>
    have hrest := ih fun w' hw' => h w' (List.mem_cons_of_mem _ hw')
    have hfirst := h w List.mem_cons_self
    unfold contents fileText at hrest ⊢
    rw [List.flatMap_cons, hrest]
    by_cases hkey : w.key = key
    · rw [if_pos (hfirst.mpr hkey), List.filter_cons_of_pos (by simpa using hkey),
        List.flatMap_cons]
    · rw [if_neg (mt hfirst.mp hkey), List.filter_cons_of_neg (by simpa using hkey)]
      rfl

/-- **Every file holds the entries of its key, and of no other**: in a session of one component. -/
theorem contents_eq_fileText [Field K] [LinearOrder K] [FloorRing K] (dir : Text)
    {env : LogEnv} (hstamp : env.localTime ≠ []) {run : List (Call K × LogEnv)}
    (hrun : ∀ e ∈ run, CallOf component e.1) {call : LogCall K} (hown : call.Own component) :
    contents
        ((calls.after (new dir) ((.initializeComponents [component], env) :: run)).filename
          call.component call.stem)
        (calls.trace (new dir) ((.initializeComponents [component], env) :: run)) =
      fileText call.key
        (calls.trace (new dir) ((.initializeComponents [component], env) :: run)) := by
  obtain ⟨hplace, hsession⟩ := places_start (K := K) dir env component
  have hrest := hplace.run (by rw [hsession]; exact hstamp) hrun
  refine contents_of_iff fun w hw => ?_
  obtain ⟨call', hown', hkey, hfile⟩ := hrest.filed w hw
  have hname : (calls.after (new dir) ((.initializeComponents [component], env) :: run)).filename
      call.component call.stem = _ := filename_congr hrest.directory hrest.session _ _
  rw [hname, hfile, ← hkey, hown'.key_eq_iff hown, hown.1]
  exact filename_eq_iff _ _ _ _

end Logger

end RobotFramework
