import TaskLine.Host
import TaskLine.Schedule.Request

/-!
# Warnings

What is logged when something goes wrong that must not stop the host. Each
warning has one wording.
-/

namespace TaskLine

/-- The name under which a host offers an event. -/
def HostEvent.hookName : HostEvent → Text
  | .lineCommitted => "on_line_committed".toList
  | .cursorLineChanged => "on_cursor_line_changed".toList
  | .leafChanged => "on_leaf_or_file_changed".toList

/-- The name of an event in messages about requests that it makes. -/
def HostEvent.requestName : HostEvent → Text
  | .lineCommitted => "commit".toList
  | .cursorLineChanged => "cursor-move".toList
  | .leafChanged => "leaf-or-file".toList

/-- Something that went wrong and was got over. -/
inductive Warning where
  /-- The switches could not be read. -/
  | settingsFailed (message : Text)
  | subscribeFailed (event : HostEvent) (message : Text)
  | unsubscribeFailed (message : Text)
  /-- The one run for a host without events could not be requested. -/
  | singleRunFailed (message : Text)
  /-- An event of the host could not request a run. -/
  | eventFailed (event : HostEvent) (message : Text)
  | runFailed (request : Request) (message : Text)
  | unreadableConfig
  | saveFailed (path message : Text)
deriving DecidableEq, Repr

def Warning.message : Warning → Text
  | .settingsFailed m => "settings accessor failed, automation paused: ".toList ++ m
  | .subscribeFailed e m =>
    "subscribing to ".toList ++ e.hookName ++ " failed: ".toList ++ m
  | .unsubscribeFailed m => "unsubscribe failed: ".toList ++ m
  | .singleRunFailed m => "one-off line run for hookless port failed: ".toList ++ m
  | .eventFailed e m => e.requestName ++ " trigger failed: ".toList ++ m
  | .runFailed r m =>
    "canonical formatting run failed (".toList ++ r.reason.name ++ ['/'] ++ r.scope.name
      ++ "): ".toList ++ m
  | .unreadableConfig => "Unreadable config".toList
  | .saveFailed path m => "save failed for ".toList ++ path ++ ": ".toList ++ m

end TaskLine
