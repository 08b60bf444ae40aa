import Cdesktop.Bytes
import Cdesktop.Config
import Cdesktop.RelayRefresh
import Cdesktop.Run

/-! The settings: the file they are saved in, the copy in memory, and the relay they turn on. -/

namespace Cdesktop.ConfigFile
open RelayRefresh (trim)
set_option autoImplicit true

structure Config where
  configVersion : String
  executorProfile : ExecutorProfileId
  onboardingAcknowledged : Bool
  gitBranchPrefix : String
  lastAppVersion : Option String
  showReleaseNotes : Bool
  relayEnabled : Bool
  hostNickname : Option String
deriving DecidableEq

instance : Inhabited Config where
  default :=
    { configVersion := "v8", executorProfile := ⟨.claudeCode, none⟩
      onboardingAcknowledged := false, gitBranchPrefix := "cdt", lastAppVersion := none
      showReleaseNotes := false, relayEnabled := true, hostNickname := none }

/-- What is used of the crates for JSON and for git, and the older versions of the settings. -/
structure Libraries where
  toStringPretty : Config → String
  fromStr : String → Option Config
  fromPreviousVersion : String → Config
  nameIsValid : String → Bool

/-- A text that was written is read back, and older settings get the present version. -/
structure Libraries.Lawful (lib : Libraries) : Prop where
  roundTrip : ∀ config, lib.fromStr (lib.toStringPretty config) = some config
  upgrades : ∀ raw, (lib.fromPreviousVersion raw).configVersion = "v8"

def Libraries.text (lib : Libraries) (config : Config) : List UInt8 :=
  utf8 (lib.toStringPretty config)

def Config.parse (lib : Libraries) (raw : String) : Option Config :=
  (lib.fromStr raw).filter (·.configVersion = "v8")

def Config.from (lib : Libraries) (raw : String) : Config :=
  (Config.parse lib raw).getD (lib.fromPreviousVersion raw)

def readConfig (file : Option (List UInt8)) : Option String := file.bind fromUtf8

def loadConfigFromFile (lib : Libraries) (file : Option (List UInt8)) : Config :=
  match readConfig file with
  | some raw => .from lib raw
  | none => default

def isValidBranchPrefix (lib : Libraries) (name : String) : Bool :=
  name.isEmpty || (!name.toList.contains '/' && lib.nameIsValid (name ++ "/x"))

def Config.started (recommended : Option ExecutorProfileId) (appVersion : String)
    (config : Config) : Config :=
  let config :=
    match config.onboardingAcknowledged, recommended with
    | false, some profile => { config with executorProfile := profile }
    | _, _ => config
  if config.lastAppVersion = some appVersion then config
  else { config with
    showReleaseNotes := config.lastAppVersion.isSome, lastAppVersion := some appVersion }

def cleanHostNickname (userName : String) (config : Config) : String :=
  match config.hostNickname.map trim with
  | some name => if name.isEmpty then userName else name
  | none => userName

/-- An `update_config` between its steps, or the start of the relay when the server starts.
`fs::write` truncates the file and then writes the text piece by piece. -/
inductive Task where
  | received (new : Config)
  | saving (old new : Config)
  | writing (old new : Config) (pos : Nat)
  | saved (old new : Config)
  | handling (old new : Config)
  | resolving
  | spawning (hostNickname : String)
  | done
deriving DecidableEq

inductive Server where
  | up
  /-- What it stops with are the settings in memory, and those that were to replace them. -/
  | down (configs : List Config)
  | booting (loaded config : Config) (pos : Option Nat)

structure World where
  server : Server
  file : Option (List UInt8)
  memory : Config
  relay : Option String
  tasks : List Task

def World.new (lib : Libraries) (file : Option (List UInt8)) : World :=
  { server := .down [loadConfigFromFile lib file], file, memory := default, relay := none
    tasks := [] }

inductive Move where
  | go
  | fail
  | write (n : Nat)
  /-- Whether all that the relay needs beside the setting is there. -/
  | resolve (available : Bool)
deriving DecidableEq

inductive Event where
  | request (new : Config)
  | step (i : Nat) (move : Move)
  | crash
  | load (recommended : Option ExecutorProfileId) (appVersion : String)
  | boot (move : Move)

def writeAt (old : List UInt8) (pos : Nat) (bytes : List UInt8) : List UInt8 :=
  if bytes = [] then old
  else old.take pos ++ List.replicate (pos - old.length) 0 ++ bytes ++ old.drop (pos + bytes.length)

def World.setTask (i : Nat) (task : Task) (w : World) : World :=
  { w with tasks := w.tasks.set i task }

def World.handle (userName : String) (i : Nat) (old new : Config) (w : World) : World :=
  match old.relayEnabled, new.relayEnabled with
  | false, true => w.setTask i .resolving
  | true, false => { w.setTask i .done with relay := none }
  | true, true =>
    if cleanHostNickname userName old = cleanHostNickname userName new then w.setTask i .done
    else w.setTask i .resolving
  | false, false => w.setTask i .done

def World.advance (lib : Libraries) (userName : String) (i : Nat) (move : Move) (w : World) :
    Task → World
  | .received new =>
    if move = .go then
      w.setTask i (if isValidBranchPrefix lib new.gitBranchPrefix then .saving w.memory new else .done)
    else w
  | .saving old new =>
    match move with
    | .go => { w.setTask i (.writing old new 0) with file := some [] }
    | .fail => w.setTask i .done
    | _ => w
  | .writing old new pos =>
    match move with
    | .write n =>
      let bytes := ((lib.text new).drop pos).take n
      { w.setTask i (.writing old new (pos + bytes.length)) with
        file := some (writeAt (w.file.getD []) pos bytes) }
    | .go => if pos = (lib.text new).length then w.setTask i (.saved old new) else w
    | .fail => if pos = (lib.text new).length then w else w.setTask i .done
    | _ => w
  | .saved old new =>
    if move = .go then { w.setTask i (.handling old new) with memory := new } else w
  | .handling old new => if move = .go then w.handle userName i old new else w
  | .resolving =>
    match move with
    | .resolve available =>
      if w.memory.relayEnabled && available then
        w.setTask i (.spawning (cleanHostNickname userName w.memory))
      else w.setTask i .done
    | _ => w
  | .spawning hostNickname =>
    if move = .go then { w.setTask i .done with relay := some hostNickname } else w
  | .done => w

def Task.pending : Task → Option Config
  | .saving _ new | .writing _ new _ | .saved _ new => some new
  | _ => none

def World.stop (configs : List Config) (w : World) : World :=
  { w with server := .down configs, relay := none, tasks := [] }

def World.step (lib : Libraries) (userName : String) (w : World) : Event → World
  | .request new =>
    match w.server with
    | .up => { w with tasks := w.tasks ++ [.received new] }
    | _ => w
  | .step i move =>
    match w.tasks[i]? with
    | some task => w.advance lib userName i move task
    | none => w
  | .crash =>
    match w.server with
    | .up => w.stop (w.memory :: w.tasks.filterMap Task.pending)
    | .booting loaded config _ => w.stop [loaded, config]
    | .down _ => w
  | .load recommended appVersion =>
    match w.server with
    | .down _ =>
      let loaded := loadConfigFromFile lib w.file
      { w with server := .booting loaded (loaded.started recommended appVersion) none }
    | _ => w
  | .boot move =>
    match w.server with
    | .booting loaded config pos =>
      match pos, move with
      | none, .go => { w with server := .booting loaded config (some 0), file := some [] }
      | some pos, .write n =>
        let bytes := ((lib.text config).drop pos).take n
        { w with
          server := .booting loaded config (some (pos + bytes.length))
          file := some (writeAt (w.file.getD []) pos bytes) }
      | some pos, .go =>
        if pos = (lib.text config).length then
          { w with server := .up, memory := config, tasks := [.resolving] }
        else w
      | some pos, .fail => if pos = (lib.text config).length then w else w.stop [loaded, config]
      | none, .fail => w.stop [loaded, config]
      | _, _ => w
    | _ => w

/-- While no update is in progress, the file and the relay are as the settings in memory say; and a
server that is down will load settings that were in force or about to be. -/
def Sound (lib : Libraries) (w : World) : Prop :=
  match w.server with
  | .up => (∀ task ∈ w.tasks, task = .done) →
      (readConfig w.file).bind (Config.parse lib) = some w.memory ∧
        w.relay.isSome = w.memory.relayEnabled
  | .down configs => loadConfigFromFile lib w.file ∈ configs
  | .booting .. => True

instance : Decidable (Sound lib w) :=
  match h : w.server with
  | .up => decidable_of_iff ((∀ task ∈ w.tasks, task = .done) →
      (readConfig w.file).bind (Config.parse lib) = some w.memory ∧
        w.relay.isSome = w.memory.relayEnabled) (by rw [Sound, h])
  | .down configs => decidable_of_iff (loadConfigFromFile lib w.file ∈ configs) (by rw [Sound, h])
  | .booting .. => decidable_of_iff True (by rw [Sound, h])

/-- The update has begun to write the file, and has not yet replaced the settings in memory. -/
def Task.saves : Task → Bool
  | .writing .. | .saved .. => true
  | _ => false

def Task.relays : Task → Bool
  | .handling .. | .resolving | .spawning _ => true
  | _ => false

def Task.torn (lib : Libraries) : Task → Bool
  | .writing _ new pos => pos ≠ (lib.text new).length
  | _ => false

def World.onlyAt (i : Nat) (p : Task → Bool) (w : World) : Bool :=
  (List.range w.tasks.length).all fun j => j ≠ i → (w.tasks[j]?).all fun task => !p task

/-- The settings are of the present version, no update writes the file between the write of another
one and its taking effect, none changes whether the relay is on after another one has read that or
while the relay is started or stopped, and no write of the file is cut short; and the relay has what
it needs. -/
def World.ok (lib : Libraries) (w : World) : Event → Bool
  | .step i move =>
    match w.tasks[i]?, move with
    | some (.received new), .go =>
      isValidBranchPrefix lib new.gitBranchPrefix → new.configVersion = "v8"
    | some (.saving ..), .go => w.onlyAt i Task.saves
    | some (.writing _ new pos), .fail => pos = (lib.text new).length
    | some (.saved old new), .go => w.memory.relayEnabled = old.relayEnabled ∧
        (new.relayEnabled = old.relayEnabled ∨ w.onlyAt i Task.relays)
    | some .resolving, .resolve available => w.memory.relayEnabled → available
    | _, _ => true
  | .crash =>
    match w.server with
    | .booting _ config (some pos) => pos = (lib.text config).length
    | _ => w.tasks.all fun task => !task.torn lib
  | .boot .fail =>
    match w.server with
    | .booting _ config (some pos) => pos = (lib.text config).length
    | _ => true
  | _ => true

end Cdesktop.ConfigFile
