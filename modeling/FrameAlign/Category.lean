/-!
# Trace categories

A category says what a trace records. At most one trace of each category is in use at a time, and
everything that is listed by category keeps the order of this type.
-/

namespace FrameAlign

/-- What a trace records. -/
inductive Category where
  | windowManager
  | surfaceFlinger
  | transactions
  | protoLog
  | screenRecording
  | screenshot
  | inputMethodClients
  | inputMethodManagerService
  | inputMethodService
  | wmTransition
  | shellTransition
  | transitions
  | eventLog
  | cujs
  | viewCapture
deriving DecidableEq, Repr

namespace Category

/-- Every category, in order. -/
def all : List Category :=
  [.windowManager, .surfaceFlinger, .transactions, .protoLog, .screenRecording, .screenshot,
    .inputMethodClients, .inputMethodManagerService, .inputMethodService, .wmTransition,
    .shellTransition, .transitions, .eventLog, .cujs, .viewCapture]

/-- The place of a category in the order. -/
def index : Category → Fin 15
  | .windowManager => 0
  | .surfaceFlinger => 1
  | .transactions => 2
  | .protoLog => 3
  | .screenRecording => 4
  | .screenshot => 5
  | .inputMethodClients => 6
  | .inputMethodManagerService => 7
  | .inputMethodService => 8
  | .wmTransition => 9
  | .shellTransition => 10
  | .transitions => 11
  | .eventLog => 12
  | .cujs => 13
  | .viewCapture => 14

/-- The name of a category in recordings, policies and reports. -/
def id : Category → String
  | .windowManager => "window_manager"
  | .surfaceFlinger => "surface_flinger"
  | .transactions => "transactions"
  | .protoLog => "proto_log"
  | .screenRecording => "screen_recording"
  | .screenshot => "screenshot"
  | .inputMethodClients => "input_method_clients"
  | .inputMethodManagerService => "input_method_manager_service"
  | .inputMethodService => "input_method_service"
  | .wmTransition => "wm_transition"
  | .shellTransition => "shell_transition"
  | .transitions => "transitions"
  | .eventLog => "event_log"
  | .cujs => "cujs"
  | .viewCapture => "view_capture"

/-- The category with the given name. -/
def ofId? (id : String) : Option Category :=
  all.find? fun c => c.id = id

/-- The name of a category in messages to a reader. -/
def title : Category → String
  | .windowManager => "Window Manager"
  | .surfaceFlinger => "Surface Flinger"
  | .transactions => "Transactions"
  | .protoLog => "ProtoLog"
  | .screenRecording => "Screen Recording"
  | .screenshot => "Screenshot"
  | .inputMethodClients => "IME Clients"
  | .inputMethodManagerService => "IME Manager Service"
  | .inputMethodService => "IME Service"
  | .wmTransition => "WM Transitions"
  | .shellTransition => "Shell Transitions"
  | .transitions => "Transitions"
  | .eventLog => "Event Log"
  | .cujs => "CUJs"
  | .viewCapture => "View Capture"

/-- The name of a category in one word, as state summaries show it. -/
def tag : Category → String
  | .windowManager => "WindowManager"
  | .surfaceFlinger => "SurfaceFlinger"
  | .transactions => "Transactions"
  | .protoLog => "ProtoLog"
  | .screenRecording => "ScreenRecording"
  | .screenshot => "Screenshot"
  | .inputMethodClients => "InputMethodClients"
  | .inputMethodManagerService => "InputMethodManagerService"
  | .inputMethodService => "InputMethodService"
  | .wmTransition => "WmTransition"
  | .shellTransition => "ShellTransition"
  | .transitions => "Transitions"
  | .eventLog => "EventLog"
  | .cujs => "Cujs"
  | .viewCapture => "ViewCapture"

/-- The directory of an archive that holds the files of a category; none for the top level. -/
def archiveDir? : Category → Option String
  | .windowManager | .protoLog | .wmTransition => some "wm"
  | .surfaceFlinger | .transactions => some "sf"
  | .inputMethodClients | .inputMethodManagerService | .inputMethodService => some "ime"
  | .shellTransition => some "shell"
  | .viewCapture => some "vc"
  | .screenRecording | .screenshot | .transitions | .eventLog | .cujs => none

/-- The extension that an exported file gets when it has no recognized one. -/
def defaultExtension : Category → String
  | .screenRecording => ".mp4"
  | .screenshot => ".png"
  | _ => ".winscope"

/-- The extensions that an exported file may keep. -/
def recognizedExtensions : Category → List String
  | .screenRecording => [".mp4"]
  | .screenshot => [".png"]
  | _ => [".winscope", ".pb", ".json"]

/-- Whether the category belongs to the input method. -/
def isInputMethod : Category → Bool
  | .inputMethodClients | .inputMethodManagerService | .inputMethodService => true
  | _ => false

/-- No category is missing from the list, so what is asked of each of `all` is asked of every
category there is. -/
theorem mem_all (c : Category) : c ∈ all := by
  cases c <;> decide

/-- No two categories share a slot, so a map kept in slots tells them apart. -/
theorem index_injective {a b : Category} (h : a.index = b.index) : a = b := by
  cases a <;> cases b <;> first | rfl | (exact absurd h (by decide))

/-- Different categories have different names, so a name finds its category again. -/
theorem ofId?_id (c : Category) : ofId? c.id = some c := by
  cases c <;> decide

/-- The default extension of a category is one that its files may keep. -/
theorem defaultExtension_mem (c : Category) : c.defaultExtension ∈ c.recognizedExtensions := by
  cases c <;> decide

end Category

end FrameAlign
