import TypeBench.Notice

/-!
# Events of loading a configuration

## Main definitions

* `ConfigEvent`: what happens while a configuration is loaded.
* `ConfigEvent.notice`, `ConfigEvent.kinds`: events as notices, and the kinds of these.
-/

namespace TypeBench

/-- What happens while a configuration is loaded. -/
inductive ConfigEvent where
  | unseeded (approach : Text)
  | loaded (name version : Text)
  deriving DecidableEq

namespace ConfigEvent

/-- An event as a notice. -/
def notice : ConfigEvent → Notice
  | unseeded approach => ⟨"config_unseeded_approach_warning", [("approach", .text approach)]⟩
  | loaded name version => ⟨"config_loaded", [("name", .text name), ("version", .text version)]⟩

/-- The kinds of notices of loading a configuration. -/
def kinds : List NoticeKind :=
  [⟨"config_unseeded_approach_warning", ["approach"]⟩, ⟨"config_loaded", ["name", "version"]⟩]

theorem check_notice (listener : String) (event : ConfigEvent) :
    (Listener.mk listener kinds).check event.notice = .ok () := by
  cases event <;> rfl

end ConfigEvent

end TypeBench
