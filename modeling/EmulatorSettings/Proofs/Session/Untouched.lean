import EmulatorSettings.Proofs.Session.Edits
import EmulatorSettings.Proofs.Session.OnDisk

/-!
# Sessions — entries nobody touched

A session over the files of a user directory, from its start to a stop for good.  In between it is
loaded, edited, looked at and stopped for a while, in any order and any number of times.

* `follows_after`, `follows_run`: what one action leads to, and what a run of them does.
* `kept_iff_loaded`: what the file held and nobody touched is in the saved file exactly if the
  session was loaded before it was stopped.
* `Action.stop_overtakes_load`: it need not have been.
-/

namespace EmulatorSettings

/-- What happens to a session before it is stopped for good. -/
inductive Action where
  | load
  | edit (e : FileEdit)
  | look
  | pause

namespace Action

/-- The session `s` after an action, over the repository `r`. -/
def perform {m : Type → Type} [Monad m] (r : Repository m) (s : Session) : Action → m Session
  | load   => (·.2) <$> s.load r
  | edit e => pure (e.apply s)
  | look   => pure s.withFile
  | pause  => (·.session) <$> s.stop r false

/-- Whether an action writes or removes the key `k` of the section `n`. -/
def Touches (s : Session) (n k : String) : Action → Prop
  | edit e => e.Touches s n k
  | _      => False

/-- The session and the tree after several actions. -/
def run (r : Repository (StateM Tree)) (s : Session) (t : Tree) : List Action → Session × Tree
  | []      => (s, t)
  | a :: as => run r ((perform r s a).run t).1 ((perform r s a).run t).2 as

/-- None of the actions `Touches` the key `k` of the section `n`. -/
def Untouched (r : Repository (StateM Tree)) (n k : String) (s : Session) (t : Tree) :
    List Action → Prop
  | []      => True
  | a :: as => ¬ a.Touches s n k ∧
      Untouched r n k ((perform r s a).run t).1 ((perform r s a).run t).2 as

end Action

/-! ### What one action does -/

namespace Action

/-- An action that stores nothing but what passes the checks of the store. -/
def Checked : Action → Prop
  | edit e => e.Checked
  | _      => True

/-- The session after an action, where loading its file gives the sections `loaded`. -/
def after (loaded : FileSections) (s : Session) : Action → Session
  | load   => if s.isLoaded then s.withFile else (s.finishLoad (.ok loaded)).2
  | edit e => e.apply s
  | look   => s.withFile
  | pause  => s

/-- An action by `perform` on a session whose file can be read leaves the tree `t` as it was. -/
theorem run_perform {l : Layout} {file : SettingsFile} {path text : String} {t : Tree}
    (hpath : l.settingsPath file = .ok path) (htext : t.readText path = .ok text) {s : Session}
    (hfile : s.file = file) (a : Action) :
    (perform (.ini Tree.disk l) s a).run t = (after (Ini.read file text).sections s a, t) := by
  cases a with
  | load =>
      subst hfile
      have hload : ((Repository.ini Tree.disk l).load s.file).run t =
          (.ok (Ini.read s.file text).sections, t) := Repository.run_loadIni hpath htext
      rw [perform, Session.load, after]
      split
      · rfl
      · rw [StateT.run_map, StateT.run_map, hload]
        rfl
  | edit e => rfl
  | look => rfl
  | pause => rfl

theorem keeps_withFile {s : Session} (hs : s.Sound) (Touches : String → String → Prop)
    (Checked : Prop) : s.Keeps s.withFile Touches Checked := by
  have hsections := s.sections_withFile
  refine ⟨rfl, ⟨?_, ?_⟩, fun n k _ => ?_, fun _ h => ?_⟩
  · exact hsections ▸ hs.file_eq
  · exact hsections ▸ hs.wellStored
  · rw [hsections]
  · exact hsections ▸ h

/-- Under `n` and `k` stands what `loaded` has there, once the session was loaded, and nothing
before. -/
def Held (loaded : FileSections) (s : Session) (n k : String) : Prop :=
  s.sections.get? n k = if s.isLoaded = true then loaded.get? n k else none

/-- What holds of the session `t` that `s` becomes by the actions `as`: its file, whether it is
loaded, what is under the keys that are `Untouched`, and whether the entries can be read. -/
structure Follows (loaded : FileSections) (s t : Session) (as : List Action)
    (Untouched : String → String → Prop) : Prop where
  file_eq : t.file = s.file
  sound : t.Sound
  isLoaded_iff : t.isLoaded = true ↔ s.isLoaded = true ∨ .load ∈ as
  held : ∀ n k, Untouched n k → Held loaded s n k → Held loaded t n k
  readable : (∀ a ∈ as, a.Checked) → Ini.Readable s.sections → Ini.Readable t.sections

/-- An action that `Keeps` what it does not touch, other than a first load. -/
theorem follows_of_keeps {loaded : FileSections} {s t : Session} {a : Action}
    (h : s.Keeps t (a.Touches s) a.Checked) (hload : t.isLoaded = s.isLoaded)
    (ha : a = .load → s.isLoaded = true) :
    Follows loaded s t [a] fun n k => ¬ a.Touches s n k := by
  refine ⟨h.file_eq, h.sound, ?_, fun n k hn hheld => ?_,
    fun hc => h.readable (hc a List.mem_cons_self)⟩
  · rw [hload, List.mem_singleton]
    exact ⟨.inl, fun hor => hor.elim id fun heq => ha heq.symm⟩
  · rw [Held, h.get?_eq n k hn, hload]
    exact hheld

/-- A first load that is carried out. -/
theorem follows_finishLoad {loaded : FileSections} (hloaded : loaded.AsRead) {s : Session}
    (hfile : loaded.file = s.file) (hs : s.Sound) (hnot : s.isLoaded = false) :
    Follows loaded s (s.finishLoad (.ok loaded)).2 [.load] fun n k => ¬ Touches s n k .load := by
  obtain ⟨hmfile, hmw, hget⟩ :=
    Session.get?_merged hloaded.wellStored hfile hs.wellStored hs.file_eq
  have hsections := Session.sections_finishLoad hmfile
  refine ⟨rfl, ⟨?_, ?_⟩, ?_, fun n k _ hheld => ?_, fun _ hr => ?_⟩
  · rw [hsections, hmfile]
    rfl
  · rwa [hsections]
  · exact ⟨fun _ => .inr List.mem_cons_self, fun _ => rfl⟩
  · -- nothing stood under the key before the load, so what was read stands there now
    rw [Held, hnot] at hheld
    rw [Held, hsections, hget, hheld]
    rfl
  · rw [hsections]
    -- each entry was edited, or else it was read from the file
    intro n k x hx
    rw [hget, Option.or_eq_some_iff] at hx
    rcases hx with hx | ⟨-, hx⟩
    · exact hr n k x hx
    · exact hloaded.readable n k x hx

/-- **What one action `a` leads to**, as `after` has it. -/
theorem follows_after {loaded : FileSections} (hloaded : loaded.AsRead) {s : Session}
    (hfile : loaded.file = s.file) (hs : s.Sound) (a : Action) :
    Follows loaded s (after loaded s a) [a] fun n k => ¬ a.Touches s n k := by
  cases a with
  | load =>
      rw [after]
      split
      · next h => exact follows_of_keeps (keeps_withFile hs _ _) rfl fun _ => h
      · next h => exact follows_finishLoad hloaded hfile hs (Bool.not_eq_true _ ▸ h)
  | edit e =>
      obtain ⟨hload, hkeeps⟩ := e.keeps hs
      exact follows_of_keeps hkeeps hload fun h => by cases h
  | look => exact follows_of_keeps (keeps_withFile hs _ _) rfl fun h => by cases h
  | pause => exact follows_of_keeps (.refl hs _ _) rfl fun h => by cases h

theorem Follows.trans {loaded : FileSections} {s t u : Session} {as bs : List Action}
    {P Q : String → String → Prop} (h₁ : Follows loaded s t as P) (h₂ : Follows loaded t u bs Q) :
    Follows loaded s u (as ++ bs) fun n k => P n k ∧ Q n k := by
  refine ⟨h₂.file_eq.trans h₁.file_eq, h₂.sound, ?_, fun n k hn hheld => ?_, fun hc hr => ?_⟩
  · rw [h₂.isLoaded_iff, h₁.isLoaded_iff, List.mem_append, or_assoc]
  · exact h₂.held n k hn.2 (h₁.held n k hn.1 hheld)
  · exact h₂.readable (fun b hb => hc b (List.mem_append_right _ hb))
      (h₁.readable (fun a ha => hc a (List.mem_append_left _ ha)) hr)

/-- **What a `run` leads to**, by what each of its actions does; the tree stays as it was. -/
theorem follows_run {l : Layout} {file : SettingsFile} {path text : String} {t : Tree}
    (hpath : l.settingsPath file = .ok path) (htext : t.readText path = .ok text)
    (as : List Action) {s : Session} (hfile : s.file = file) (hs : s.Sound) :
    (run (.ini Tree.disk l) s t as).2 = t ∧
      Follows (Ini.read file text).sections s (run (.ini Tree.disk l) s t as).1 as
        fun n k => Untouched (.ini Tree.disk l) n k s t as := by
  induction as generalizing s with
  | nil =>
      refine ⟨rfl, rfl, hs, ?_, fun _ _ _ h => h, fun _ h => h⟩
      exact ⟨.inl, fun hor => hor.elim id fun hm => by cases hm⟩
  | cons a as ih =>
      have hstep := follows_after (Ini.asRead_read file text)
        ((Ini.file_read file text).trans hfile.symm) hs a
      obtain ⟨hdisk, hrest⟩ := ih (hstep.file_eq.trans hfile) hstep.sound
      -- the first action leaves the disk alone, so the rest of the run finds the same file
      rw [run, run_perform hpath htext hfile]
      refine ⟨hdisk, ?_⟩
      have hall := hstep.trans hrest
      simp only [Untouched, run_perform hpath htext hfile]
      exact hall

end Action

/-! ### What the saved file holds -/

/-- **What nobody touched.** A session over a file that can be read goes through any actions `as`
from its start to a stop that saves.  Then the file holds the text of the sections `m` in memory.
What it held before under a key that is `Untouched` is in `m`, and is read back if every action is
`Checked`, exactly if `.load ∈ as`. -/
theorem kept_iff_loaded {l : Layout} {file : SettingsFile} {path text : String} {t t' : Tree}
    (hpath : l.settingsPath file = .ok path) (htext : t.readText path = .ok text)
    {as : List Action} {stop : Stop}
    (hstop : ((Action.run (.ini Tree.disk l) (.new file) t as).1.stop (.ini Tree.disk l) true).run
      (Action.run (.ini Tree.disk l) (.new file) t as).2 = (stop, t'))
    (hsaved : stop.outcome = .saved) :
    ∃ m, t'.readText path = .ok (Ini.write m) ∧
      ∀ n k x, (Ini.read file text).sections.get? n k = some x →
        Action.Untouched (.ini Tree.disk l) n k (.new file) t as →
        (m.get? n k = some x ↔ .load ∈ as) ∧
        ((∀ a ∈ as, a.Checked) →
          ((Ini.read file (Ini.write m)).sections.get? n k = some x ↔ .load ∈ as)) := by
  have hnew : (Session.new file).Sound := ⟨rfl, FileSections.wellStored_new file⟩
  obtain ⟨-, h⟩ := Action.follows_run hpath htext as rfl hnew
  have hloaded : (Action.run (.ini Tree.disk l) (.new file) t as).1.isLoaded = true ↔
      .load ∈ as := by
    rw [h.isLoaded_iff]
    exact ⟨fun hor => hor.elim (fun hf => by cases hf) id, .inr⟩
  generalize (Action.run (.ini Tree.disk l) (.new file) t as).1 = s at h hloaded hstop
  obtain rfl : s.file = file := h.file_eq
  have has := Ini.asRead_read s.file text
  refine ⟨s.sections, Session.readText_of_stop hpath hstop hsaved, fun n k x hx hn => ?_⟩
  have hheld : s.sections.get? n k = if s.isLoaded = true then some x else none := by
    rw [← hx]
    exact h.held n k hn rfl
  have hkept : s.sections.get? n k = some x ↔ .load ∈ as := by
    rw [hheld, ← hloaded]
    split
    · next hl => exact ⟨fun _ => hl, fun _ => rfl⟩
    · next hl => exact ⟨nofun, fun h => absurd h hl⟩
  refine ⟨hkept, fun hchecked => ?_⟩
  have hback := Ini.read_write_of_readable h.sound.wellStored
    (h.readable hchecked fun _ _ _ hnone => by cases hnone)
  rw [h.sound.file_eq] at hback
  rw [hback, FileSections.get?_reread h.sound.wellStored, ← hkept, hheld]
  split
  · -- a value that was read is the one that its written text reads as
    obtain ⟨hkey, hname, hfile⟩ := FileSections.identity_of_get? has.wellStored hx
    rw [Ini.file_read] at hfile
    rw [Option.map_some, has.settled hx, h.sound.file_eq, ← hkey, ← hname, ← hfile]
  · exact Iff.rfl

/-! ### A stop that overtakes the load -/

namespace Action

/-- A user directory with a settings file of one entry. -/
def oneEntry : Tree :=
  let t := (Tree.empty.put ["user"] .directory).put ["user", "config"] .directory
  t.put ["user", "config", "config.ini"] (.file (.text "[Core]\nuse_cpu_jit=1\n"))

/-- The repository of the directory `/user`. -/
def userFiles : Repository (StateM Tree) :=
  .ini Tree.disk ⟨"/user"⟩

/-- A key of another section than that of `oneEntry` is given a value. -/
def setVsync : Action :=
  .edit (.trySet "Renderer" "use_vsync" (.int 1))

/-- The session is taken through the actions `as`, and stopped for good. -/
def stopAfter (as : List Action) : Stop × Tree :=
  ((run userFiles (.new .config) oneEntry as).1.stop userFiles true).run
    (run userFiles (.new .config) oneEntry as).2

/-- A session that is loaded after its only edit keeps the entry that was there. -/
theorem kept_after_late_load :
    (stopAfter [setVsync, .load]).1.outcome = .saved ∧
      ∃ m, (stopAfter [setVsync, .load]).2.readText "/user/config/config.ini" = .ok (Ini.write m) ∧
        (Ini.read .config (Ini.write m)).sections.get? "Core" "use_cpu_jit" =
          some ⟨"use_cpu_jit", "Core", .config, .int 1⟩ := by
  have hpath : (Layout.mk "/user").settingsPath .config = .ok "/user/config/config.ini" := by
    decide +kernel
  have htext : oneEntry.readText "/user/config/config.ini" = .ok "[Core]\nuse_cpu_jit=1\n" := by
    decide +kernel
  have hsaved : (stopAfter [setVsync, .load]).1.outcome = .saved := by decide +kernel
  have hheld : (Ini.read .config "[Core]\nuse_cpu_jit=1\n").sections.get? "Core" "use_cpu_jit" =
      some ⟨"use_cpu_jit", "Core", .config, .int 1⟩ := by decide +kernel
  have hstop : stopAfter [setVsync, .load] =
      ((stopAfter [setVsync, .load]).1, (stopAfter [setVsync, .load]).2) := rfl
  obtain ⟨m, hm, hkept⟩ := kept_iff_loaded hpath htext hstop hsaved
  have huntouched : Untouched userFiles "Core" "use_cpu_jit" (.new .config) oneEntry
      [setVsync, .load] := ⟨fun h => absurd h.1.1 (by decide), id, trivial⟩
  have hchecked : ∀ a ∈ [setVsync, .load], a.Checked := by
    refine List.forall_mem_cons.2 ⟨trivial, List.forall_mem_singleton.2 trivial⟩
  refine ⟨hsaved, m, hm, ((hkept _ _ _ hheld huntouched).2 hchecked).2 ?_⟩
  exact List.mem_cons_of_mem _ List.mem_cons_self

/-- **A stop that overtakes the load** drops what the file held, though nobody touched it. -/
theorem stop_overtakes_load :
    (stopAfter [setVsync]).1.outcome = .saved ∧
      (Ini.read .config "[Core]\nuse_cpu_jit=1\n").sections.get? "Core" "use_cpu_jit" =
        some ⟨"use_cpu_jit", "Core", .config, .int 1⟩ ∧
      Untouched userFiles "Core" "use_cpu_jit" (.new .config) oneEntry [setVsync] ∧
      oneEntry.readText "/user/config/config.ini" = .ok "[Core]\nuse_cpu_jit=1\n" ∧
      (stopAfter [setVsync]).2.readText "/user/config/config.ini" =
        .ok "[Renderer]\nuse_vsync=1\n" ∧
      (Ini.read .config "[Renderer]\nuse_vsync=1\n").sections.get? "Core" "use_cpu_jit" = none := by
  refine ⟨by decide +kernel, by decide +kernel, ⟨fun h => absurd h.1.1 (by decide), trivial⟩,
    by decide +kernel, by decide +kernel, by decide +kernel⟩

end Action

end EmulatorSettings
