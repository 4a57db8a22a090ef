import LslFront.Ty

/-!
# Events

The events that a handler can be written for, each with the types of its parameters in order.
-/

namespace LslFront.Builtin

def events : List (String × List Ty) :=
  [("at_rot_target", [.integer, .rotation, .rotation]),
   ("at_target", [.integer, .vector, .vector]),
   ("attach", [.key]),
   ("changed", [.integer]),
   ("collision", [.integer]),
   ("collision_end", [.integer]),
   ("collision_start", [.integer]),
   ("control", [.key, .integer, .integer]),
   ("dataserver", [.key, .string]),
   ("email", [.string, .string, .string, .string, .integer]),
   ("experience_permissions", [.key]),
   ("experience_permissions_denied", [.key, .integer]),
   ("http_request", [.key, .string, .string]),
   ("http_response", [.key, .integer, .list, .string]),
   ("land_collision", [.vector]),
   ("land_collision_end", [.vector]),
   ("land_collision_start", [.vector]),
   ("link_message", [.integer, .integer, .string, .key]),
   ("listen", [.integer, .string, .key, .string]),
   ("money", [.key, .integer]),
   ("moving_end", []),
   ("moving_start", []),
   ("no_sensor", []),
   ("not_at_rot_target", []),
   ("not_at_target", []),
   ("object_rez", [.key]),
   ("on_rez", [.integer]),
   ("path_update", [.integer, .list]),
   ("remote_data", [.integer, .key, .key, .string, .integer, .string]),
   ("run_time_permissions", [.integer]),
   ("sensor", [.integer]),
   ("state_entry", []),
   ("state_exit", []),
   ("timer", []),
   ("touch", [.integer]),
   ("touch_end", [.integer]),
   ("touch_start", [.integer]),
   ("transaction_result", [.key, .integer, .string])]

def event? (name : String) : Option (List Ty) :=
  events.lookup name

end LslFront.Builtin
