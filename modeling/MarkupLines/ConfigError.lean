/-
  MarkupLines.ConfigError
  ────────────────────────────────
  **WHAT CAN BE WRONG WITH A CONFIGURATION.**

  Only setting up can fail: reading settings, and compiling the patterns in
  them.  Asking about a document and splitting it into lines never fail.
  Each cause is a constructor, and `ConfigError.message` words it.
-/
import MarkupLines.Regex.Flags

namespace MarkupLines

/-- Why a settings file cannot be read. -/
inductive ReadFault where
  | notFound
  | isDirectory
  /-- The bytes are not UTF-8. -/
  | invalidText
  deriving DecidableEq, Repr

/-- Why a settings text is refused. -/
inductive SettingsFault where
  /-- The text breaks the rules of its format. -/
  | malformed
  /-- A value is of the wrong type. -/
  | wrongType
  deriving DecidableEq, Repr

/-- What is wrong with a configuration. -/
inductive ConfigError where
  /-- A pattern does not compile. -/
  | invalidPattern (name : String) (fault : PatternFault)
  /-- A rule pattern has no group to read the rule names from. -/
  | missingRuleGroup (source : Text)
  | unknownRegionKind (name : Text)
  | unreadable (path : Text) (fault : ReadFault)
  | invalidSettings (fault : SettingsFault)
  deriving DecidableEq, Repr

namespace ConfigError

/-- The wording of an error, up to the description of its cause. -/
def message : ConfigError → String
  | invalidPattern name _ => "pattern `" ++ name ++ "` failed to compile: "
  | missingRuleGroup source =>
      "ignored rule pattern `" ++ String.ofList source ++ "` needs a capture group for rule names"
  | unknownRegionKind name => "unknown region kind `" ++ String.ofList name ++ "`"
  | unreadable path _ => "failed to read settings file '" ++ String.ofList path ++ "': "
  | invalidSettings _ => "failed to parse settings: "

end ConfigError

end MarkupLines
