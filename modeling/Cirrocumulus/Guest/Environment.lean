/-
# The app's environment

An app's environment passes through three programs. The CLI takes it from the flags of a
run, merged into the image's own when there is an image; the agent checks it and passes it
on; guest-init adds `PATH` and `HOME` where they are missing. Each has its own reading of
a list that gives a variable twice: `merge_env` replaces the first entry, guest-init looks
the last one up, and the app's `getenv` takes the first.
-/

import Cirrocumulus.Guest.Config
import Cirrocumulus.Image.Cache

namespace Cirrocumulus.Guest

open List Option
open ImageCache (RunConfig)
open Node (RunRequest envOk guestConfig)

variable {env overrides : List Str} {entry k : Str}

/-! ## Merging -/

/-- The variable that an entry gives: the whole entry if it has no `=`. -/
def key (entry : Str) : Str := ((splitOnce '=' entry).map Prod.fst).getD entry

/-- One override: it replaces the first entry for its key, or is added after all of them. -/
def mergeEntry (merged : List Str) (entry : Str) : List Str :=
  match merged.findIdx? fun existing => key existing == key entry with
  | some i => merged.set i entry
  | none => merged ++ [entry]

/-- `merge_env`. -/
def mergeEnv (env overrides : List Str) : List Str := overrides.foldl mergeEntry env

theorem mergeEntry_cons (existing : Str) (merged : List Str) (entry : Str) :
    mergeEntry (existing :: merged) entry =
      if key existing = key entry then entry :: merged
      else existing :: mergeEntry merged entry := by
  rw [mergeEntry, findIdx?_cons]
  by_cases heq : key existing = key entry
  · simp [heq]
  · simp only [beq_iff_eq, heq, if_false, mergeEntry]
    cases merged.findIdx? fun existing => key existing == key entry <;> rfl

/-- An override adds its key behind the others if it is not among them. -/
theorem keys_mergeEntry (merged : List Str) (entry : Str) :
    (mergeEntry merged entry).map key = merged.map key ++
      if key entry ∈ merged.map key then [] else [key entry] := by
  induction merged with
  | nil => simp [mergeEntry]
  | cons existing merged ih =>
    rw [mergeEntry_cons]
    by_cases heq : key existing = key entry
    · simp [heq]
    · simp [heq, Ne.symm heq, ih]

/-- An override takes the place of the first entry for its variable, and leaves the rest. -/
theorem filter_mergeEntry (merged : List Str) (entry k : Str) :
    (mergeEntry merged entry).filter (key · = k) =
      if key entry = k then entry :: (merged.filter (key · = k)).tail
      else merged.filter (key · = k) := by
  induction merged with
  | nil => by_cases hk : key entry = k <;> simp [mergeEntry, hk]
  | cons existing merged ih =>
    rw [mergeEntry_cons]
    by_cases heq : key existing = key entry
    · by_cases hk : key entry = k <;> simp [heq, hk]
    · by_cases hk : key entry = k
      · subst hk
        simpa [heq] using ih
      · simp [heq, hk, filter_cons, ih]

/-- The last override stands where the first entry was, and the other entries are left. -/
theorem filter_mergeEnv (env overrides : List Str) (k : Str) :
    (mergeEnv env overrides).filter (key · = k) =
      ((overrides.filter (key · = k)).getLast?.or (env.filter (key · = k)).head?).toList ++
        (env.filter (key · = k)).tail := by
  induction overrides generalizing env with
  | nil => cases hentries : env.filter (key · = k) <;> simp [mergeEnv, hentries]
  | cons entry rest ih =>
    refine (ih (mergeEntry env entry)).trans ?_
    rw [filter_mergeEntry, filter_cons]
    by_cases hk : key entry = k
    · simp only [hk, decide_true, if_true, getLast?_cons, head?_cons, tail_cons]
      cases (rest.filter (key · = k)).getLast? <;> rfl
    · simp [hk]

theorem filter_key_eq_nil (h : k ∉ env.map key) : env.filter (key · = k) = [] := by
  rw [filter_eq_nil_iff]
  intro entry hentry hkey
  exact h (of_decide_eq_true hkey ▸ List.mem_map_of_mem hentry)

/-- A variable that is given at most once has no second entry. -/
theorem tail_filter_key (h : (env.map key).Nodup) : (env.filter (key · = k)).tail = [] := by
  induction env with
  | nil => rfl
  | cons entry env ih =>
    obtain ⟨hnot, hrest⟩ := nodup_cons.mp h
    rw [filter_cons]
    by_cases hk : key entry = k
    · simp [hk, filter_key_eq_nil (hk ▸ hnot)]
    · simpa [hk] using ih hrest

/-- The image's keys come first, and behind them those that only the overrides give. -/
theorem keys_mergeEnv (env overrides : List Str) :
    ∃ added, (mergeEnv env overrides).map key = env.map key ++ added ∧ added.Nodup ∧
      ∀ k, k ∈ added ↔ k ∈ overrides.map key ∧ k ∉ env.map key := by
  induction overrides generalizing env with
  | nil => exact ⟨[], by simp [mergeEnv]⟩
  | cons entry rest ih =>
    obtain ⟨added, hkeys, hnodup, hadded⟩ := ih (mergeEntry env entry)
    rw [keys_mergeEntry] at hkeys hadded
    show ∃ added, (mergeEnv (mergeEntry env entry) rest).map key = _ ∧ _
    by_cases hmem : key entry ∈ env.map key
    · rw [if_pos hmem, append_nil] at hkeys hadded
      refine ⟨added, hkeys, hnodup, fun k => (hadded k).trans ?_⟩
      grind
    · rw [if_neg hmem] at hkeys hadded
      refine ⟨key entry :: added, by simpa using hkeys, ?_, ?_⟩ <;> grind

theorem nodup_mergeEnv_iff : ((mergeEnv env overrides).map key).Nodup ↔ (env.map key).Nodup := by
  obtain ⟨added, hkeys, hnodup, hadded⟩ := keys_mergeEnv env overrides
  rw [hkeys, nodup_append']
  refine ⟨fun h => h.1, fun h => ⟨h, hnodup, fun k hk hmem => ?_⟩⟩
  exact ((hadded k).mp hmem).2 hk

/-- `merge_env` gives each variable one value, that of its last override if it has one,
exactly if the image gives each at most one. The other variables keep the image's, and the
image's keys keep their order, with new keys after them. -/
theorem mergeEnv_one_value (env overrides : List Str) :
    (((mergeEnv env overrides).map key).Nodup ∧
      (∀ first entry rest, overrides = first ++ entry :: rest → key entry ∉ rest.map key →
        (mergeEnv env overrides).filter (key · = key entry) = [entry]) ↔
      (env.map key).Nodup) ∧
    (∀ k, k ∉ overrides.map key →
      (mergeEnv env overrides).filter (key · = k) = env.filter (key · = k)) ∧
    ∃ added, (mergeEnv env overrides).map key = env.map key ++ added ∧
      ∀ k, k ∈ added ↔ k ∈ overrides.map key ∧ k ∉ env.map key := by
  refine ⟨⟨fun h => nodup_mergeEnv_iff.mp h.1, fun henv => ⟨nodup_mergeEnv_iff.mpr henv, ?_⟩⟩,
    ?_, ?_⟩
  · rintro first entry rest rfl hlast
    rw [filter_mergeEnv, filter_append, filter_cons_of_pos (by simp),
      filter_key_eq_nil hlast, getLast?_append_cons, tail_filter_key henv]
    rfl
  · intro k hk
    rw [filter_mergeEnv, filter_key_eq_nil hk]
    cases env.filter (key · = k) <;> rfl
  · obtain ⟨added, hkeys, -, hadded⟩ := keys_mergeEnv env overrides
    exact ⟨added, hkeys, hadded⟩

/-- The theorem applies: an override of a variable that the image gives once. -/
theorem mergeEnv_overrides_path :
    (mergeEnv ["PATH=/usr/bin"] ["A=1", "PATH=/app"]).filter
      (key · = "PATH") = ["PATH=/app".toList] :=
  ((mergeEnv_one_value ["PATH=/usr/bin"] _).1.mpr (by decide)).2 ["A=1"]
    "PATH=/app" [] rfl (by decide)

/-- A variable that the image gives twice keeps its second entry beside the override. -/
theorem mergeEnv_keeps_repeated_key :
    mergeEnv ["A=1", "A=2"] ["A=3"] = ["A=3".toList, "A=2".toList] := by
  decide

/-! ## Who reads the environment -/

/-- What the CLI boots: a rootfs, or the rootfs of a pulled image with the image's config. -/
inductive Booted
  | rootfs (path : Str)
  | image (rootfs : Str) (config : RunConfig)

/-- What a run's flags say to run in the guest. -/
structure Flags where
  command : List Str
  env : List Str
  workdir : Option Str
  user : Option Node.User

/-- `RunConfig::command`. -/
def imageCommand (config : RunConfig) (args : List Str) : List Str :=
  config.entrypoint ++ if args.isEmpty then config.cmd else args

/-- `run_request`, once `image` is found to be a rootfs or is pulled. -/
def runRequest (name : Str) (memMib vcpus : Nat) (image : Str) (booted : Booted)
    (guest : Flags) (route : Option Node.Route) : Except Str RunRequest :=
  match booted with
  | .rootfs path =>
    if guest.command.isEmpty then
      .error (image ++
        " is a rootfs, which has no command of its own: give one after \x60--\x60")
    else
      .ok ⟨name, path, memMib, vcpus, guest.command, guest.env, guest.workdir, guest.user, route⟩
  | .image rootfs config =>
    .ok ⟨name, rootfs, memMib, vcpus, imageCommand config guest.command,
      mergeEnv config.env guest.env, guest.workdir.or config.workdir,
      guest.user.or (config.user.map fun user => ⟨.ofNat user.1, .ofNat user.2⟩), route⟩

/-- The list that gives a run's variables before any are replaced. -/
def Booted.given (booted : Booted) (guest : Flags) : List Str :=
  match booted with
  | .rootfs _ => guest.env
  | .image _ config => config.env

/-- The list that replaces them. -/
def Booted.replaces (booted : Booted) (guest : Flags) : List Str :=
  match booted with
  | .rootfs _ => []
  | .image _ _ => guest.env

/-- Where a variable is given more than once, its last entry is the one that the first is
replaced with, or the first itself. -/
def LastIsFirst (given overrides : List Str) (k : Str) : Prop :=
  ∀ last ∈ (given.filter (key · = k)).tail.getLast?,
    (overrides.filter (key · = k)).getLast?.or (given.filter (key · = k)).head? = some last

instance (given overrides : List Str) (k : Str) : Decidable (LastIsFirst given overrides k) :=
  inferInstanceAs (Decidable (∀ last ∈ (given.filter (key · = k)).tail.getLast?, _))

/-- The value that an entry gives to `key`. -/
def valueFor (key entry : Str) : Option Str :=
  ((splitOnce '=' entry).filter fun parts => decide (parts.1 = key)).map Prod.snd

/-- What the app sees: the first entry wins. -/
def getenv (env : List Str) (key : Str) : Option Str := env.findSome? (valueFor key)

theorem sets_iff : sets env k ↔ env.filterMap (valueFor k) ≠ [] := by
  simp [sets, valueFor, filterMap_eq_nil_iff, Option.any_eq_true, filter_eq_none_iff]

theorem lookup_eq_getenv_iff : lookup env k = getenv env k ↔
    (env.filterMap (valueFor k)).getLast? = (env.filterMap (valueFor k)).head? := by
  rw [← head?_reverse, ← filterMap_reverse, head?_filterMap, head?_filterMap]
  rfl

/-- An accepted entry that gives a variable is the variable, `=` and the value. -/
theorem map_valueFor {entry : Str} (h : envOk entry) (k : Str) :
    (valueFor k entry).map (k ++ '=' :: ·) = if key entry = k then some entry else none := by
  rw [envOk, Bool.and_eq_true, Option.any_eq_true] at h
  obtain ⟨⟨⟨before, value⟩, hsplit, -⟩, -⟩ := h
  obtain ⟨rfl, -⟩ := splitOnce_eq_some.mp hsplit
  simp only [valueFor, key, hsplit, map_some, getD_some]
  by_cases hk : before = k <;> simp [hk]

theorem map_values (h : ∀ entry ∈ env, envOk entry) (k : Str) :
    (env.filterMap (valueFor k)).map (k ++ '=' :: ·) = env.filter (key · = k) := by
  rw [map_filterMap, ← filterMap_eq_filter]
  apply filterMap_congr
  intro entry hentry
  simpa [Option.guard] using map_valueFor (h entry hentry) k

/-- guest-init gives `PATH` and `HOME` a value only where there is none. -/
theorem values_appEnv (hk : k = "PATH" ∨ k = "HOME") :
    ∃ added : Option Str, (appEnv env).filterMap (valueFor k) =
      env.filterMap (valueFor k) ++ if sets env k then [] else added.toList := by
  have hadded (b : Bool) (entry : Str) : (if b then [] else [entry]).filterMap (valueFor k) =
      if b then [] else (valueFor k entry).toList := by
    cases b with
    | true => rfl
    | false => cases hvalue : valueFor k entry <;> simp [hvalue]
  have hpath : valueFor "PATH" "HOME=/" = none := by decide
  have hhome : valueFor "HOME" ("PATH=" ++ defaultPath) = none := by decide
  rw [appEnv, filterMap_append, filterMap_append, hadded, hadded]
  rcases hk with rfl | rfl
  · rw [hpath, toList_none, ite_self, append_nil]
    exact ⟨_, rfl⟩
  · rw [hhome, toList_none, ite_self, append_nil]
    exact ⟨_, rfl⟩

/-- So the first and the last value agree exactly if they do before. -/
theorem lookup_appEnv_iff (hk : k = "PATH" ∨ k = "HOME") :
    lookup (appEnv env) k = getenv (appEnv env) k ↔
      (env.filterMap (valueFor k)).getLast? = (env.filterMap (valueFor k)).head? := by
  obtain ⟨added, hvalues⟩ := values_appEnv hk
  rw [lookup_eq_getenv_iff, hvalues]
  split
  · rw [append_nil]
  · rename_i hsets
    rw [not_ne_iff.mp (mt sets_iff.mpr hsets)]
    cases added <;> simp

theorem lastIsFirst_iff {given overrides : List Str} : LastIsFirst given overrides k ↔
    ((mergeEnv given overrides).filter (key · = k)).getLast? =
      ((mergeEnv given overrides).filter (key · = k)).head? := by
  rw [LastIsFirst, filter_mergeEnv]
  cases given.filter (key · = k) with
  | nil => cases (overrides.filter (key · = k)).getLast? <;> simp
  | cons first rest =>
    rw [head?_cons, tail_cons]
    cases (overrides.filter (key · = k)).getLast? <;>
      cases hlast : rest.getLast? <;> simp [getLast?_cons, hlast, eq_comm]

theorem env_of_runRequest {name image memMib vcpus booted guest route run}
    (h : runRequest name memMib vcpus image booted guest route = .ok run) :
    run.env = mergeEnv (booted.given guest) (booted.replaces guest) := by
  unfold runRequest at h
  repeat' split at h
  all_goals cases h
  all_goals rfl

theorem env_of_guestConfig {run config} (h : guestConfig run = .ok config) :
    config.env = run.env ∧ ∀ entry ∈ run.env, envOk entry := by
  unfold guestConfig at h
  repeat' split at h
  all_goals cases h
  rename_i henv _ _
  exact ⟨rfl, by simpa using henv⟩

theorem env_of_execApp {kernel config file args env}
    (h : execApp kernel config = .ok (file, args, env)) : env = appEnv config.env := by
  simp only [execApp, bind, Except.bind] at h
  repeat' split at h
  all_goals cases h
  all_goals rfl

/-- guest-init and the app agree on `PATH`, and on `HOME`, exactly for the runs in which the
lists that the CLI is given leave the last entry for the variable equal to the first. -/
theorem guest_and_app_agree {name image : Str} {memMib vcpus : Nat} {booted : Booted}
    {guest : Flags} {route : Option Node.Route} {run : RunRequest} {config : Node.GuestConfig}
    (hrun : runRequest name memMib vcpus image booted guest route = .ok run)
    (haccepted : guestConfig run = .ok config) (hk : k = "PATH" ∨ k = "HOME") :
    (lookup (appEnv config.env) k = getenv (appEnv config.env) k ↔
      LastIsFirst (booted.given guest) (booted.replaces guest) k) ∧
      ∀ (kernel : Kernel) (file : Str) (args env : List Str),
        execApp kernel (.of config) = .ok (file, args, env) → env = appEnv config.env := by
  refine ⟨?_, fun kernel file args env => env_of_execApp⟩
  obtain ⟨henv, hok⟩ := env_of_guestConfig haccepted
  have hinj : Function.Injective fun value : Str => k ++ '=' :: value := by
    intro value other h
    simpa using h
  rw [lookup_appEnv_iff hk, lastIsFirst_iff, henv, ← env_of_runRequest hrun, ← map_values hok,
    getLast?_map, head?_map, (map_injective hinj).eq_iff]

/-- A run whose flags are these. -/
def flagged (env : List Str) : Flags := ⟨["app"], env, none, none⟩

/-- The theorem applies: the image gives `PATH` twice, and a flag overrides it with what the
second says. -/
theorem guest_and_app_agree_on_override :
    ∃ run config, runRequest [] 128 1 []
        (.image [] { env := ["PATH=/bin", "PATH=/app"] })
        (flagged ["PATH=/app"]) none = .ok run ∧ guestConfig run = .ok config ∧
      lookup (appEnv config.env) "PATH" = getenv (appEnv config.env) "PATH" := by
  have hrun : runRequest [] 128 1 []
      (.image [] { env := ["PATH=/bin", "PATH=/app"] })
      (flagged ["PATH=/app"]) none = .ok _ := rfl
  exact ⟨_, _, hrun, rfl, (guest_and_app_agree hrun rfl (.inl rfl)).1.mpr (by decide)⟩

/-- A rootfs run whose flags give `PATH` twice: guest-init finds the app in the last, and the
app sees the first. -/
theorem guest_and_app_differ :
    ∃ run config, runRequest [] 128 1 [] (.rootfs [])
        (flagged ["PATH=/a", "PATH=/b"]) none = .ok run ∧
      guestConfig run = .ok config ∧
      lookup (appEnv config.env) "PATH" = some "/b".toList ∧
      getenv (appEnv config.env) "PATH" = some "/a".toList :=
  ⟨_, _, rfl, rfl, by decide, by decide⟩

end Cirrocumulus.Guest
