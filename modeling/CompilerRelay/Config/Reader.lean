import CompilerRelay.Config
import CompilerRelay.FileTree.Access
import CompilerRelay.Toml.Reader

/-!
# Reading the configuration

The configuration from a file of TOML in the home directory.

**Algorithm.**  Every setting has a name, a place in the list of settings, and a type.  A table sets by name, and
what it does not name keeps its default; an array sets by place.  Unknown names are skipped, but a value of the
wrong type makes the file unreadable.

**Place.**  The configuration is read at the start of the program.  What `Proofs.ConfigReading` says of it is about the
values that the text stands for, not about the spelling of TOML.
-/

namespace CompilerRelay

/-- Why a file with the configuration could not be used. -/
inductive ConfigFault where
  | unreadable (path : Path) (cause : FileError)
  /-- Its text is not one of TOML, or not one of this configuration. -/
  | malformed (path : Path)
  deriving DecidableEq, Repr

namespace ConfigFault

/-- The file. -/
def path : ConfigFault → Path
  | .unreadable path _ | .malformed path => path

/-- What is told of a fault. -/
def message : ConfigFault → String
  | .unreadable path cause => "failed to read config at " ++ path.text ++ ": " ++ cause.message
  | .malformed path => "failed to parse config at " ++ path.text

end ConfigFault

namespace Toml

/-- A value as a text. -/
def text? : Toml → Option String
  | .string text => some text
  | _ => none

/-- A value as a truth value. -/
def boolean? : Toml → Option Bool
  | .boolean value => some value
  | _ => none

/-- A value as a number of 64 bits. -/
def word? : Toml → Option Nat
  | .integer value => if 0 ≤ value && value.toNat < Nat.pow 2 64 then some value.toNat else none
  | _ => none

/-- A value as a path. -/
def path? (value : Toml) : Option Path :=
  value.text?.map Path.mk

/-- A value as a list of texts. -/
def texts? : Toml → Option (List String)
  | .array items => items.mapM text?
  | _ => none

end Toml

/-- A setting: its name, and what a value for it does. -/
structure Setting where
  name : String
  apply : Toml → CompilerConfig → Option CompilerConfig

namespace CompilerConfig

/-- A setting whose value is read and put in its place. -/
def setting (name : String) (read : Toml → Option α) (put : CompilerConfig → α → CompilerConfig) : Setting :=
  ⟨name, fun value config => (read value).map (put config)⟩

/-- The settings in their order. -/
def settings : List Setting :=
  [ setting "program" Toml.text? fun config program => { config with program },
    setting "args" Toml.texts? fun config arguments => { config with arguments },
    setting "cm_root" Toml.path? fun config root => { config with root },
    setting "cm_path" Toml.path? fun config path => { config with project := some path },
    setting "diagnostics_root" Toml.path? fun config path => { config with outputRoot := some path },
    setting "git_mode" Toml.boolean? fun config gitMode => { config with gitMode },
    setting "arch" Toml.text? fun config arch => { config with arch },
    setting "debug" Toml.boolean? fun config debug => { config with debug },
    setting "clear_output_on_build" Toml.boolean? fun config clearOutput => { config with clearOutput },
    setting "ready_pattern" Toml.text? fun config pattern => { config with readyPattern := some pattern },
    setting "startup_timeout_ms" Toml.word? fun config startupTimeout => { config with startupTimeout },
    setting "watch_timeout_ms" Toml.word? fun config watchTimeout => { config with watchTimeout },
    setting "output_file" Toml.path? fun config path => { config with outputFile := some path },
    setting "clean_program" Toml.text? fun config cleanProgram => { config with cleanProgram },
    setting "clean_args" Toml.texts? fun config cleanArguments => { config with cleanArguments } ]

/-- Apply a member of a table, if it is a setting. -/
def applyMember (config : CompilerConfig) (member : String × Toml) : Option CompilerConfig :=
  match settings.find? (·.name == member.1) with
  | none => some config
  | some setting => setting.apply member.2 config

/-- Read what is told about the compiler. -/
def ofToml? : Toml → Option CompilerConfig
  | .table _ members => members.foldlM applyMember {}
  | .array items => (settings.zip items).foldlM (fun config (setting, value) => setting.apply value config) {}
  | .tables items =>
      (settings.zip items.reverse).foldlM
        (fun config (setting, members) => setting.apply (.table .header members) config) {}
  | _ => none

end CompilerConfig

namespace Config

/-- Read the level of the log from what is told about the program. -/
def logLevelOf? : Toml → Option (Option String)
  | .table _ members =>
      match Toml.member? "log_level" members with
      | none => some none
      | some value => value.text?.map some
  | .array (value :: _) => value.text?.map some
  | _ => none

/-- Read the configuration from a document. -/
def ofToml? (members : Toml.Members) : Option Config := do
  let logLevel ← ((Toml.member? "app" members).map logLevelOf?).getD (some none)
  let compiler ← ((Toml.member? "compiler" members).map CompilerConfig.ofToml?).getD (some {})
  return { logLevel, compiler }

/-- Load the configuration from a file, if there is one. -/
def loadFrom (tree : FileTree) (path : Path) : Except ConfigFault (Option Config) :=
  if !tree.exists? path then .ok none
  else
    match tree.readText path with
    | .error cause => .error (.unreadable path cause)
    | .ok text =>
        match (Toml.read text).bind ofToml? with
        | none => .error (.malformed path)
        | some config => .ok (some config)

/-- The directory for the configuration and the logs. -/
def home (environment : Environment) : Path :=
  environment.home.join ⟨".cmbridge"⟩

/-- The file with the configuration. -/
def file (environment : Environment) : Path :=
  (home environment).join ⟨"config.toml"⟩

/-- Load the configuration of the user, if there is one. -/
def load (environment : Environment) (tree : FileTree) : Except ConfigFault (Option Config) :=
  loadFrom tree (file environment)

end Config
end CompilerRelay
