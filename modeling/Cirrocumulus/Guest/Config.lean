/-
# What guest-init runs

The agent checks a request's command, environment and workdir, and sends them to guest-init
as JSON. guest-init parses the JSON into its own `Config`, adds `PATH` and `HOME` to the
environment, looks the executable up and hands everything to the kernel, which takes
strings that end at their first NUL. So the agent has to refuse every NUL that would get
there: guest-init can only fail.

JSON stands for itself here: what `serde_json` writes is taken to be read back as it was.
-/

import Cirrocumulus.Node.Registry

namespace Cirrocumulus.Guest

open List
open Node (GuestConfig RunRequest envOk guestConfig)

/-! ## The config on the wire -/

inductive Json
  | null
  | num (n : Nat)
  | str (s : Str)
  | arr (items : List Json)
  | obj (fields : List (Str × Json))

namespace Json

def strs (items : List Str) : Json := .arr (items.map .str)

def opt {α : Type} (encode : α → Json) : Option α → Json
  | none => .null
  | some a => encode a

def ofUser (user : Node.User) : Json :=
  .obj [("uid", .num user.uid.toNat), ("gid", .num user.gid.toNat)]

/-- `GuestConfig` as it is serialized. -/
def ofGuestConfig (guest : GuestConfig) : Json :=
  .obj [("exec", .str guest.exec), ("args", strs guest.args),
    ("env", strs guest.env), ("workdir", opt .str guest.workdir),
    ("user", opt ofUser guest.user)]

/-! ### Reading -/

def toStr : Json → Option Str
  | .str s => some s
  | _ => none

def toStrs : Json → Option (List Str)
  | .arr items => items.mapM toStr
  | _ => none

def toU32 : Json → Option UInt32
  | .num n => if n < 2 ^ 32 then some (.ofNat n) else none
  | _ => none

/-- An `Option`, which is `None` for `null`. -/
def toOpt {α : Type} (decode : Json → Option α) : Json → Option (Option α)
  | .null => some none
  | json => (decode json).map some

/-- A field of a struct, which may be missing. To have it twice is an error. -/
def field {α : Type} (fields : List (Str × Json)) (name : Str) (decode : Json → Option α) :
    Option (Option α) :=
  match fields.filter fun entry => decide (entry.1 = name) with
  | [] => some none
  | [entry] => (decode entry.2).map some
  | _ => none

/-- The next element of a struct that is written as an array, which may be missing. -/
def element {α : Type} (items : List Json) (i : Nat) (decode : Json → Option α) :
    Option (Option α) :=
  match items[i]? with
  | none => some none
  | some json => (decode json).map some

end Json

namespace Config

/-- guest-init's own `User`. -/
structure User where
  uid : UInt32
  gid : UInt32
  deriving DecidableEq

end Config

structure Config where
  exec : Str
  args : List Str
  env : List Str
  workdir : Option Str
  user : Option Config.User
  deriving DecidableEq

open Json in
/-- A `User` is read from an object, or from an array of its two fields. -/
def Config.User.ofJson : Json → Option Config.User
  | .obj fields => do
      let uid ← (← field fields "uid" toU32)
      let gid ← (← field fields "gid" toU32)
      some ⟨uid, gid⟩
  | .arr items => do
      let uid ← (← element items 0 toU32)
      let gid ← (← element items 1 toU32)
      if items.length ≤ 2 then some ⟨uid, gid⟩ else none
  | _ => none

open Json in
/-- `parse_config`. Every field but `exec` has a default, and unknown fields are ignored. -/
def parseConfig : Json → Option Config
  | .obj fields => do
      let exec ← (← field fields "exec" toStr)
      let args ← field fields "args" toStrs
      let env ← field fields "env" toStrs
      let workdir ← field fields "workdir" (toOpt toStr)
      let user ← field fields "user" (toOpt Config.User.ofJson)
      some ⟨exec, args.getD [], env.getD [], workdir.getD none, user.getD none⟩
  | .arr items => do
      let exec ← (← element items 0 toStr)
      let args ← element items 1 toStrs
      let env ← element items 2 toStrs
      let workdir ← element items 3 (toOpt toStr)
      let user ← element items 4 (toOpt Config.User.ofJson)
      if items.length ≤ 5 then
        some ⟨exec, args.getD [], env.getD [], workdir.getD none, user.getD none⟩
      else none
  | _ => none

/-! ## Launching the app -/

def defaultPath : Str := "/usr/local/sbin:/usr/local/bin:/usr/sbin:/usr/bin:/sbin:/bin"

/-- Whether an environment sets `key`. -/
def sets (env : List Str) (key : Str) : Bool :=
  env.any fun entry => (splitOnce '=' entry).any fun parts => decide (parts.1 = key)

/-- `app_env`. -/
def appEnv (env : List Str) : List Str :=
  env ++ (if sets env "PATH".toList then [] else ["PATH=".toList ++ defaultPath]) ++
    if sets env "HOME".toList then [] else ["HOME=/".toList]

/-- `lookup`: the last entry wins. -/
def lookup (env : List Str) (key : Str) : Option Str :=
  env.reverse.findSome? fun entry =>
    ((splitOnce '=' entry).filter fun parts => decide (parts.1 = key)).map Prod.snd

/-- `Path::join`, for a relative path behind a directory. -/
def joinPath (dir file : Str) : Str :=
  if dir.getLast? = some '/' then dir ++ file else dir ++ '/' :: file

/-- `resolve`. -/
def resolve (exec path : Str) (isExecutable : Str → Bool) : Option Str :=
  if exec.contains '/' then some exec
  else
    (((path.splitOn ':').filter fun dir => !dir.isEmpty).map fun dir => joinPath dir exec).find?
      isExecutable

/-- What the kernel answers. An error is known by its text. -/
structure Kernel where
  chdir : Str → Option Str
  setUser : Config.User → Option Str
  isExecutable : Str → Bool
  execve : Str → List Str → List Str → Option Str

/-- A string that the kernel would take to end before its end. -/
def hasNul (s : Str) : Bool := s.contains '\x00'

inductive ExecError
  | chdir (dir : Str) (error : Str)
  /-- `chdir` is not tried for a path with a NUL, and says `EINVAL`. -/
  | chdirNul (dir : Str)
  | switchUser (user : Config.User) (error : Str)
  | notFound (path : Str)
  | nulIn (s : Str)
  | nulInFile
  | execve (error : Str)
  deriving DecidableEq

variable {error : ExecError} {kernel : Kernel}

/-- The failures that are due to a NUL. -/
def ExecError.isNul : ExecError → Bool
  | .chdirNul _ | .nulIn _ | .nulInFile => true
  | .chdir .. | .switchUser .. | .notFound _ | .execve _ => false

/-- Strings for the kernel, each ended by a NUL. -/
def toCstrings (items : List Str) : Except ExecError Unit :=
  match items.find? hasNul with
  | some s => .error (.nulIn s)
  | none => .ok ()

def enterWorkdir (kernel : Kernel) : Option Str → Except ExecError Unit
  | none => .ok ()
  | some dir =>
    if hasNul dir then .error (.chdirNul dir)
    else
      match kernel.chdir dir with
      | some error => .error (.chdir dir error)
      | none => .ok ()

def switchUser (kernel : Kernel) : Option Config.User → Except ExecError Unit
  | none => .ok ()
  | some user =>
    match kernel.setUser user with
    | some error => .error (.switchUser user error)
    | none => .ok ()

/-- `exec_app`, which returns only if it fails: otherwise the app runs, from its file and with
its arguments and environment. A file whose path has a NUL is not executable. -/
def execApp (kernel : Kernel) (config : Config) : Except ExecError (Str × List Str × List Str) := do
  let env := appEnv config.env
  enterWorkdir kernel config.workdir
  switchUser kernel config.user
  let path := (lookup env "PATH").getD []
  let some file := resolve config.exec path fun file => !hasNul file && kernel.isExecutable file
    | throw (.notFound path)
  toCstrings (config.exec :: config.args)
  toCstrings env
  if hasNul file then throw .nulInFile
  match kernel.execve file (config.exec :: config.args) env with
  | some error => throw (.execve error)
  | none => return (file, config.exec :: config.args, env)

/-! ## The config arrives -/

namespace Json

theorem toStrs_strs (items : List Str) : toStrs (strs items) = some items := by
  show (items.map .str).mapM toStr = some items
  induction items with
  | nil => rfl
  | cons s items ih => rw [map_cons, mapM_cons, ih]; rfl

theorem toOpt_str (o : Option Str) : toOpt toStr (opt .str o) = some o := by
  cases o <;> rfl

theorem toU32_num (n : UInt32) : toU32 (.num n.toNat) = some n := by
  rw [toU32, if_pos n.toNat_lt, UInt32.ofNat_toNat]

end Json

/-- A request's user, as guest-init has it. -/
def Config.User.of (user : Node.User) : Config.User := ⟨user.uid, user.gid⟩

theorem Config.User.ofJson_ofUser (user : Node.User) :
    Config.User.ofJson (Json.ofUser user) = some (.of user) := by
  have huid : Json.field [("uid", .num user.uid.toNat), ("gid", .num user.gid.toNat)]
      "uid" Json.toU32 = some (some user.uid) := by
    show (Json.toU32 (.num user.uid.toNat)).map some = _
    rw [Json.toU32_num]
    rfl
  have hgid : Json.field [("uid", .num user.uid.toNat), ("gid", .num user.gid.toNat)]
      "gid" Json.toU32 = some (some user.gid) := by
    show (Json.toU32 (.num user.gid.toNat)).map some = _
    rw [Json.toU32_num]
    rfl
  simp only [Config.User.ofJson, Json.ofUser, huid, hgid]
  rfl

theorem Json.toOpt_ofUser (user : Option Node.User) :
    toOpt Config.User.ofJson (opt ofUser user) = some (user.map .of) := by
  cases user with
  | none => rfl
  | some user =>
    show (Config.User.ofJson (ofUser user)).map some = _
    rw [Config.User.ofJson_ofUser]
    rfl

/-- guest-init's config for what the agent sends. -/
def Config.of (guest : GuestConfig) : Config :=
  ⟨guest.exec, guest.args, guest.env, guest.workdir, guest.user.map .of⟩

theorem parseConfig_ofGuestConfig (guest : GuestConfig) :
    parseConfig (.ofGuestConfig guest) = some (.of guest) := by
  show (do
    let args ← (Json.toStrs (Json.strs guest.args)).map some
    let env ← (Json.toStrs (Json.strs guest.env)).map some
    let workdir ← (Json.toOpt Json.toStr (Json.opt .str guest.workdir)).map some
    let user ← (Json.toOpt Config.User.ofJson (Json.opt Json.ofUser guest.user)).map some
    some (Config.mk guest.exec (args.getD []) (env.getD []) (workdir.getD none)
      (user.getD none)) : Option Config) = _
  rw [Json.toStrs_strs, Json.toStrs_strs, Json.toOpt_str, Json.toOpt_ofUser]
  rfl

/-! ## No NUL reaches the kernel -/

/-- Nothing in the config would be cut short. -/
structure Config.NulFree (config : Config) : Prop where
  command : ∀ arg ∈ config.exec :: config.args, hasNul arg = false
  env : ∀ entry ∈ config.env, hasNul entry = false
  workdir : ∀ dir ∈ config.workdir, hasNul dir = false

theorem hasNul_appEnv {env} (h : ∀ entry ∈ env, hasNul entry = false) :
    ∀ entry ∈ appEnv env, hasNul entry = false := by
  have hadded {b : Bool} {added : Str} (hadded : hasNul added = false) :
      ∀ entry ∈ (if b then [] else [added]), hasNul entry = false := by
    cases b <;> simp [hadded]
  intro entry hmem
  rcases mem_append.mp hmem with hmem | hhome
  · rcases mem_append.mp hmem with hgiven | hpath
    · exact h entry hgiven
    · exact hadded (by decide) entry hpath
  · exact hadded (by decide) entry hhome

theorem toCstrings_eq_ok {items} (h : ∀ s ∈ items, hasNul s = false) :
    toCstrings items = .ok () := by
  have hnone : items.find? hasNul = none := find?_eq_none.mpr fun s hs => by simp [h s hs]
  rw [toCstrings, hnone]

theorem hasNul_resolve {exec path file isExecutable}
    (hexec : hasNul exec = false) (hexecutable : ∀ file, isExecutable file → hasNul file = false)
    (h : resolve exec path isExecutable = some file) : hasNul file = false := by
  unfold resolve at h
  split at h
  · cases h
    exact hexec
  · exact hexecutable file (find?_some h)

theorem isNul_enterWorkdir {workdir} (hdir : ∀ dir ∈ workdir, hasNul dir = false)
    (h : enterWorkdir kernel workdir = .error error) : error.isNul = false := by
  cases workdir with
  | none => cases h
  | some dir =>
    simp only [enterWorkdir, hdir dir rfl, Bool.false_eq_true, if_false] at h
    split at h
    · cases h
      rfl
    · cases h

theorem isNul_switchUser {user}
    (h : switchUser kernel user = .error error) : error.isNul = false := by
  cases user with
  | none => cases h
  | some user =>
    simp only [switchUser] at h
    split at h
    · cases h
      rfl
    · cases h

theorem Config.NulFree.isNul_execApp {config} (hfree : config.NulFree)
    (h : execApp kernel config = .error error) : error.isNul = false := by
  have henv := hasNul_appEnv hfree.env
  unfold execApp at h
  rcases except_bind_eq_error.mp h with hchdir | ⟨-, -, h⟩
  · exact isNul_enterWorkdir hfree.workdir hchdir
  rcases except_bind_eq_error.mp h with huser | ⟨-, -, h⟩
  · exact isNul_switchUser huser
  dsimp only at h
  split at h
  case h_2 =>
    cases h
    rfl
  case h_1 file hresolve =>
    have hfile : hasNul file = false := by
      apply hasNul_resolve (hfree.command _ mem_cons_self) _ hresolve
      intro file hexecutable
      simp only [Bool.and_eq_true, Bool.not_eq_true'] at hexecutable
      exact hexecutable.1
    rw [toCstrings_eq_ok hfree.command, toCstrings_eq_ok henv, hfile] at h
    dsimp only [bind, Except.bind] at h
    simp only [Bool.false_eq_true, if_false] at h
    split at h
    · cases h
      rfl
    · cases h

/-! ## What the agent accepts -/

theorem hasNul_of_envOk {entry} (h : envOk entry) : hasNul entry = false := by
  unfold envOk at h
  rw [Bool.and_eq_true, Bool.not_eq_true'] at h
  exact h.2

/-- The agent sends what the request says, and only if no NUL is in it. -/
theorem of_guestConfig {run guest} (h : guestConfig run = .ok guest) :
    ∃ exec args, run.command = exec :: args ∧
      guest = ⟨exec, args, run.env, run.workdir, run.user⟩ ∧ (Config.of guest).NulFree := by
  unfold guestConfig at h
  split at h
  case h_1 => cases h
  case h_2 exec args hcommand =>
    split at h
    case isTrue => cases h
    case isFalse hok =>
      split at h
      case h_1 => cases h
      case h_2 henv =>
        split at h
        case h_1 => cases h
        case h_2 hdir =>
          cases h
          refine ⟨exec, args, hcommand, rfl, ⟨?_, ?_, ?_⟩⟩
          · intro arg harg
            rw [hcommand, not_or, Bool.not_eq_true, any_eq_false] at hok
            simpa [hasNul] using hok.2 arg harg
          · intro entry hentry
            have hentryOk := find?_eq_none.mp henv entry hentry
            exact hasNul_of_envOk (by simpa using hentryOk)
          · intro dir hmem
            have hdirOk := (Option.filter_eq_none_iff.mp hdir) dir hmem
            simp only [Bool.or_eq_true, not_or, Bool.not_eq_true] at hdirOk
            exact hdirOk.2

/-- What a request that is accepted asks for is what guest-init gets, and whatever the kernel
answers, the launch doesn't fail for a NUL. -/
theorem accepted_request_launches {run : RunRequest} {guest : GuestConfig}
    (h : guestConfig run = .ok guest) :
    ∃ exec args config, run.command = exec :: args ∧
      parseConfig (.ofGuestConfig guest) = some config ∧
      config = ⟨exec, args, run.env, run.workdir, run.user.map .of⟩ ∧
      ∀ kernel error, execApp kernel config = .error error → error.isNul = false := by
  obtain ⟨exec, args, hcommand, hguest, hfree⟩ := of_guestConfig h
  refine ⟨exec, args, .of guest, hcommand, parseConfig_ofGuestConfig guest, ?_, ?_⟩
  · rw [hguest]
    rfl
  · intro kernel error herror
    exact hfree.isNul_execApp herror

/-- A request that sets everything guest-init is told. -/
def sampleRun : RunRequest where
  name := "web"
  rootfs := "/srv/web.ext4"
  memMib := 256
  vcpus := 1
  command := ["nginx", "-g"]
  env := ["A=1"]
  workdir := some "/srv"
  user := some ⟨101, 102⟩
  route := none

theorem sample_request_launches :
    ∃ config,
      (guestConfig sampleRun).toOption.bind (fun guest => parseConfig (.ofGuestConfig guest)) =
        some config ∧
      config.exec = "nginx" ∧
      ∀ kernel error, execApp kernel config = .error error → error.isNul = false := by
  have hguest : guestConfig sampleRun = .ok ⟨"nginx", ["-g"], ["A=1"],
      some "/srv", some ⟨101, 102⟩⟩ := by decide
  obtain ⟨exec, args, config, hcommand, hparse, hconfig, hlaunch⟩ :=
    accepted_request_launches hguest
  refine ⟨config, ?_, ?_, hlaunch⟩
  · rw [hguest]
    exact hparse
  · cases hcommand
    rw [hconfig]

end Cirrocumulus.Guest
