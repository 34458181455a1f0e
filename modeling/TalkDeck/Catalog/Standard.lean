import TalkDeck.Catalog.Basic

/-
The action types that every deck can use.
-/

namespace TalkDeck
namespace Catalog

def fileOpen : ActionSpec where
  type := "file.open"
  description := "Opens a file in the VS Code editor at an optional line and column."
  parameters :=
    [{ name := "path", type := .string, required := true
       description := "Workspace-relative file path to open.", completion := some .file },
     { name := "line", type := .number
       description := "1-based line number to reveal after opening." },
     { name := "column", type := .number
       description := "1-based column number to position the cursor." },
     { name := "range", type := .string, description := "Line range to select (e.g., \"10-20\")." },
     { name := "viewColumn", type := .number
       description := "Editor view column to open in (1 = first, 2 = second, etc.)." },
     { name := "preview", type := .boolean
       description := "Whether to open as a preview tab (default: false)." }]

def editorHighlight : ActionSpec where
  type := "editor.highlight"
  description := "Highlights a range of lines in an already-open file with a configurable style."
  parameters :=
    [{ name := "path", type := .string, required := true
       description := "Workspace-relative file path.", completion := some .file },
     { name := "lines", type := .string, required := true
       description := "Line range to highlight (e.g., \"10-20\" or \"10\")." },
     { name := "color", type := .string, description := "CSS color for the highlight decoration." },
     { name := "style", type := .string, description := "Highlight style."
       allowed := some ["subtle", "prominent"], completion := some .enum },
     { name := "duration", type := .number
       description := "Duration in ms (0 = until slide exit)." }]

def terminalRun : ActionSpec where
  type := "terminal.run"
  description := "Runs a shell command in the integrated terminal."
  requiresTrust := true
  parameters :=
    [{ name := "command", type := .string, required := true
       description :=
         "Command to execute in the terminal. Can be a plain string or a " ++
         "platform command map object with keys: macos, windows, linux, " ++
         "default. Supports placeholders: $\x7bpathSep\x7d, $\x7bhome\x7d, $\x7bshell\x7d, " ++
         "$\x7bpathDelimiter\x7d." },
     { name := "name", type := .string, description := "Name for the terminal instance." },
     { name := "background", type := .boolean
       description := "Run in background without waiting for completion." },
     { name := "timeout", type := .number, description := "Timeout in ms (default: 30000)." },
     { name := "clear", type := .boolean, description := "Clear terminal before execution." },
     { name := "reveal", type := .boolean, description := "Show the terminal panel." },
     { name := "cwd", type := .string, description := "Working directory (workspace-relative)."
       completion := some .file }]

def debugStart : ActionSpec where
  type := "debug.start"
  description := "Starts a debug session using a named launch configuration."
  requiresTrust := true
  parameters :=
    [{ name := "configName", type := .string, required := true
       description := "Name of the launch configuration.", completion := some .launchConfig },
     { name := "workspaceFolder", type := .string
       description := "Workspace folder for multi-root workspaces." },
     { name := "stopOnEntry", type := .boolean
       description := "Stop at the entry point after launch." }]

/-- The action that runs steps, under the name a deck uses for it. -/
def sequence (type : String) : ActionSpec where
  type := type
  description := "Executes multiple actions in order with configurable delay between steps."
  parameters :=
    [{ name := "steps", type := .array, required := true
       description := "Non-empty array of action definitions to execute in order." },
     { name := "delay", type := .number
       description := "Delay in ms between steps (default: 500)." },
     { name := "stopOnError", type := .boolean
       description := "Stop on first failure (default: true)." }]

def vscodeCommand : ActionSpec where
  type := "vscode.command"
  description := "Executes an arbitrary VS Code command by ID."
  parameters :=
    [{ name := "id", type := .string, required := true
       description := "VS Code command ID (e.g., \"workbench.action.openSettings\")." },
     { name := "args", type := .array, description := "Arguments to pass to the command." }]

def standard (sequenceType : String) : Catalog :=
  [fileOpen, editorHighlight, terminalRun, debugStart, sequence sequenceType, vscodeCommand].foldl
    register empty

end Catalog
end TalkDeck
