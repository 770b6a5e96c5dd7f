/-
  Juxta/Release.lean
  ==================
  **Names and version** — how the programs of the language present themselves.
-/
namespace Juxta.Release

/-- The name of the language, of its command, and of the origin of its diagnostics. -/
def name : String := "maxlang"

/-- The name of the editor server. -/
def serverName : String := "maxlang-lsp"

/-- The version of all of them. -/
def version : String := "0.1.0"

end Juxta.Release
