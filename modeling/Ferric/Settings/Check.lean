import Ferric.Settings.Basic

/-!
# Checking settings

The conditions that settings have to meet before a run.  The first one that is not met is reported:
the default buffer, then the extension, then the rules in their order.

## Main definitions

* `RuleFault`, `SettingsFault`: what can be wrong.
* `Rule.fault?`, `Settings.fault?`: the first thing that is wrong.
-/

namespace Ferric

/-- What can be wrong with a rule. -/
inductive RuleFault where
  /-- It matches by nothing. -/
  | unnamed
  /-- It matches by a whole name and by a leading part. -/
  | namedTwice
  /-- It emits nothing, and says where to. -/
  | idleTarget
  /-- Its buffer is no plain name. -/
  | buffer
  /-- It bounds the parameters of something else than functions. -/
  | bounds
  /-- Its bounds leave no number between them. -/
  | emptyBounds
deriving DecidableEq, Repr

/-- What is said about it. -/
def RuleFault.message : RuleFault → String
  | .unnamed => "needs a name or a prefix"
  | .namedTwice => "name and prefix are exclusive"
  | .idleTarget => "skip cannot be combined with buffer or rename"
  | .buffer => "buffer must be a plain file stem"
  | .bounds => "parameter bounds only apply to functions"
  | .emptyBounds => "min_params is greater than max_params"

def hasSeparator (name : String) : Bool :=
  name.toList.any fun c => c == '/' || c == '\\'

namespace Rule

/-- What a rule is called in messages. -/
def describe (r : Rule) : String :=
  match r.name, r.leading with
  | some name, _ => "rule for " ++ Text.quoted name
  | none, some leading => "rule for prefix " ++ Text.quoted leading
  | none, none => "rule"

def hasBounds (r : Rule) : Bool :=
  r.minParams.isSome || r.maxParams.isSome

def coversFunctions (r : Rule) : Bool :=
  r.category == none || r.category == some .function

/-- Whether the least number of parameters exceeds the greatest. -/
def hasEmptyBounds (r : Rule) : Bool :=
  match r.minParams, r.maxParams with
  | some least, some greatest => greatest < least
  | _, _ => false

/-- The first thing that is wrong with a rule. -/
def fault? (r : Rule) : Option RuleFault :=
  if r.name.isNone && r.leading.isNone then some .unnamed
  else if r.name.isSome && r.leading.isSome then some .namedTwice
  else if r.skip && (r.buffer.isSome || r.rename.isSome) then some .idleTarget
  else if r.buffer.any fun b => b == "" || hasSeparator b then some .buffer
  else if r.hasBounds && !r.coversFunctions then some .bounds
  else if r.hasEmptyBounds then some .emptyBounds
  else none

end Rule

/-- What can be wrong with settings. -/
inductive SettingsFault where
  /-- The default buffer is no plain name. -/
  | fallback (buffer : String)
  /-- The extension starts with a dot. -/
  | extension (text : String)
  | rule (r : Rule) (fault : RuleFault)
deriving DecidableEq, Repr

/-- What is said about it. -/
def SettingsFault.message : SettingsFault → String
  | .fallback buffer => "default_buffer " ++ Text.quoted buffer ++ " must be a plain file stem"
  | .extension text => "extension " ++ Text.quoted text ++ " must not start with a dot"
  | .rule r fault => r.describe ++ ": " ++ fault.message

namespace Settings

/-- The first rule with something wrong, and what it is. -/
def ruleFault? (rules : List Rule) : Option SettingsFault :=
  rules.findSome? fun r => r.fault?.map (.rule r)

/-- **The first thing that is wrong with settings.** -/
def fault? (s : Settings) : Option SettingsFault :=
  match s.placement.fallback with
  | some buffer =>
    if hasSeparator buffer then some (.fallback buffer) else next
  | none => next
where
  /-- What is wrong besides the default buffer. -/
  next : Option SettingsFault :=
    if Text.startsWith s.output.extension "." then some (.extension s.output.extension)
    else ruleFault? s.placement.rules

/-- The settings, if nothing is wrong with them. -/
def checked (s : Settings) : Except SettingsError Settings :=
  match s.fault? with
  | none => .ok s
  | some fault => .error (.invalid fault.message)

end Settings

end Ferric
