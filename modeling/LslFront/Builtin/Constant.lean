import LslFront.Constant
import LslFront.Dialect

/-!
# Built-in constants

Every constant belongs to one feature and is visible in the dialects that have it.
-/

namespace LslFront.Builtin

/-- A named value of a feature. -/
structure NamedConstant where
  name : String
  feature : Feature
  value : Constant
deriving DecidableEq, Repr

/-- The double nearest to the ratio of a circle's circumference to its diameter. -/
def pi : Float := 3.141592653589793

def coreConstants : List (String × Constant) :=
  [("TRUE", .integer 1),
   ("FALSE", .integer 0),
   ("PI", .float pi),
   ("TWO_PI", .float (pi * 2.0)),
   ("PI_BY_TWO", .float (pi / 2.0)),
   ("DEG_TO_RAD", .float (pi / 180.0)),
   ("RAD_TO_DEG", .float (180.0 / pi)),
   ("SQRT2", .float 1.4142135623730951),
   ("ZERO_VECTOR", .vector ⟨0.0, 0.0, 0.0⟩),
   ("ZERO_ROTATION", .rotation ⟨0.0, 0.0, 0.0, 1.0⟩),
   ("NULL_KEY", .string "00000000-0000-0000-0000-000000000000"),
   ("EOF", .string "\n\n\n"),
   ("PUBLIC_CHANNEL", .integer 0),
   ("DEBUG_CHANNEL", .integer 2147483647),
   ("ALL_SIDES", .integer (-1))]

/-- What a sensor looks for. -/
def sensorConstants : List (String × Constant) :=
  [("AGENT", .integer 1),
   ("ACTIVE", .integer 2),
   ("PASSIVE", .integer 4),
   ("SCRIPTED", .integer 8)]

/-- What the event `changed` reports. -/
def changeConstants : List (String × Constant) :=
  [("CHANGED_INVENTORY", .integer 1),
   ("CHANGED_COLOR", .integer 2),
   ("CHANGED_SHAPE", .integer 4),
   ("CHANGED_SCALE", .integer 8),
   ("CHANGED_TEXTURE", .integer 16),
   ("CHANGED_LINK", .integer 32),
   ("CHANGED_ALLOWED_DROP", .integer 64),
   ("CHANGED_OWNER", .integer 128),
   ("CHANGED_REGION", .integer 256),
   ("CHANGED_TELEPORT", .integer 512),
   ("CHANGED_REGION_START", .integer 1024)]

/-- What a script can ask an avatar for. -/
def permissionConstants : List (String × Constant) :=
  [("PERMISSION_DEBIT", .integer 2),
   ("PERMISSION_TAKE_CONTROLS", .integer 4),
   ("PERMISSION_TRIGGER_ANIMATION", .integer 16),
   ("PERMISSION_ATTACH", .integer 32),
   ("PERMISSION_CHANGE_LINKS", .integer 128),
   ("PERMISSION_TRACK_CAMERA", .integer 1024),
   ("PERMISSION_CONTROL_CAMERA", .integer 2048)]

/-- Parts of a linked object. -/
def linkConstants : List (String × Constant) :=
  [("LINK_ROOT", .integer 1),
   ("LINK_SET", .integer (-1)),
   ("LINK_ALL_OTHERS", .integer (-2)),
   ("LINK_ALL_CHILDREN", .integer (-3)),
   ("LINK_THIS", .integer (-4))]

/-- Object status, types of values and of inventory. -/
def statusConstants : List (String × Constant) :=
  [("STATUS_PHYSICS", .integer 1),
   ("STATUS_ROTATE_X", .integer 2),
   ("STATUS_ROTATE_Y", .integer 4),
   ("STATUS_ROTATE_Z", .integer 8),
   ("STATUS_PHANTOM", .integer 16),
   ("TYPE_INVALID", .integer 0),
   ("TYPE_INTEGER", .integer 1),
   ("TYPE_FLOAT", .integer 2),
   ("TYPE_STRING", .integer 3),
   ("TYPE_KEY", .integer 4),
   ("TYPE_VECTOR", .integer 5),
   ("TYPE_ROTATION", .integer 6),
   ("INVENTORY_ALL", .integer (-1)),
   ("INVENTORY_NONE", .integer (-1)),
   ("INVENTORY_TEXTURE", .integer 0),
   ("INVENTORY_SOUND", .integer 1),
   ("INVENTORY_OBJECT", .integer 6),
   ("INVENTORY_NOTECARD", .integer 7),
   ("INVENTORY_SCRIPT", .integer 10),
   ("INVENTORY_ANIMATION", .integer 20)]

/-- Keys that a script can take over. -/
def controlConstants : List (String × Constant) :=
  [("CONTROL_FWD", .integer 1),
   ("CONTROL_BACK", .integer 2),
   ("CONTROL_LEFT", .integer 4),
   ("CONTROL_RIGHT", .integer 8),
   ("CONTROL_UP", .integer 16),
   ("CONTROL_DOWN", .integer 32),
   ("CONTROL_LBUTTON", .integer 268435456),
   ("CONTROL_ML_LBUTTON", .integer 1073741824)]

/-- Properties of objects and attachment points. -/
def parameterConstants : List (String × Constant) :=
  [("PRIM_MATERIAL", .integer 2),
   ("PRIM_PHYSICS", .integer 3),
   ("PRIM_TEMP_ON_REZ", .integer 4),
   ("PRIM_PHANTOM", .integer 5),
   ("PRIM_POSITION", .integer 6),
   ("PRIM_SIZE", .integer 7),
   ("PRIM_ROTATION", .integer 8),
   ("PRIM_TYPE", .integer 9),
   ("PRIM_TEXTURE", .integer 17),
   ("PRIM_COLOR", .integer 18),
   ("PRIM_FULLBRIGHT", .integer 20),
   ("PRIM_GLOW", .integer 25),
   ("PRIM_TEXT", .integer 26),
   ("PRIM_NAME", .integer 27),
   ("PRIM_DESC", .integer 28),
   ("OBJECT_NAME", .integer 1),
   ("OBJECT_DESC", .integer 2),
   ("OBJECT_POS", .integer 3),
   ("OBJECT_ROT", .integer 4),
   ("OBJECT_VELOCITY", .integer 5),
   ("OBJECT_OWNER", .integer 6),
   ("OBJECT_GROUP", .integer 7),
   ("OBJECT_CREATOR", .integer 8),
   ("ATTACH_CHEST", .integer 1),
   ("ATTACH_HEAD", .integer 2),
   ("ATTACH_LHAND", .integer 5),
   ("ATTACH_RHAND", .integer 6)]

/-- String trimming, web requests and structured text. -/
def textualConstants : List (String × Constant) :=
  [("STRING_TRIM_HEAD", .integer 1),
   ("STRING_TRIM_TAIL", .integer 2),
   ("STRING_TRIM", .integer 3),
   ("HTTP_METHOD", .integer 0),
   ("HTTP_MIMETYPE", .integer 1),
   ("HTTP_BODY_MAXLENGTH", .integer 2),
   ("HTTP_VERIFY_CERT", .integer 3),
   ("JSON_INVALID", .string "\ufdd0"),
   ("JSON_OBJECT", .string "\ufdd1"),
   ("JSON_ARRAY", .string "\ufdd2"),
   ("JSON_NUMBER", .string "\ufdd3"),
   ("JSON_STRING", .string "\ufdd4"),
   ("JSON_NULL", .string "\ufdd5"),
   ("JSON_TRUE", .string "\ufdd6"),
   ("JSON_FALSE", .string "\ufdd7")]

/-- Kinds of vehicles. -/
def vehicleConstants : List (String × Constant) :=
  [("VEHICLE_TYPE_NONE", .integer 0),
   ("VEHICLE_TYPE_SLED", .integer 1),
   ("VEHICLE_TYPE_CAR", .integer 2),
   ("VEHICLE_TYPE_BOAT", .integer 3),
   ("VEHICLE_TYPE_AIRPLANE", .integer 4),
   ("VEHICLE_TYPE_BALLOON", .integer 5)]

def openSimulatorConstants : List (String × Constant) :=
  [("OS_NPC_FLY", .integer 0),
   ("OS_NPC_NO_FLY", .integer 1),
   ("OS_NPC_LAND_AT_TARGET", .integer 2),
   ("OS_NPC_SIT_NOW", .integer 0),
   ("OS_NPC_CREATOR_OWNED", .integer 1),
   ("OS_NPC_NOT_OWNED", .integer 2),
   ("OS_NPC_SENSE_AS_AGENT", .integer 4),
   ("STATS_TIME_DILATION", .integer 0),
   ("STATS_SIM_FPS", .integer 1),
   ("STATS_PHYSICS_FPS", .integer 2),
   ("STATS_AGENT_UPDATES", .integer 3),
   ("STATS_ROOT_AGENTS", .integer 4),
   ("STATS_CHILD_AGENTS", .integer 5),
   ("STATS_TOTAL_PRIMS", .integer 6),
   ("STATS_ACTIVE_PRIMS", .integer 7),
   ("STATS_ACTIVE_SCRIPTS", .integer 19),
   ("WL_WATER_COLOR", .integer 0),
   ("WL_WATER_FOG_DENSITY_EXPONENT", .integer 1),
   ("WL_UNDERWATER_FOG_MODIFIER", .integer 2)]

def auroraConstants : List (String × Constant) :=
  [("BOT_FOLLOW_FLY", .integer 0),
   ("BOT_FOLLOW_WALK", .integer 1),
   ("BOT_FOLLOW_RUN", .integer 2),
   ("BOT_FOLLOW_TELEPORT", .integer 3),
   ("BOT_FOLLOW_WAIT", .integer 4),
   ("BOT_FOLLOW_TRIGGER_HERE_EVENT", .integer 1),
   ("BOT_FOLLOW_FLAG_NONE", .integer 0),
   ("BOT_FOLLOW_FLAG_INDEFINITELY", .integer 1),
   ("BOT_TAG_FIND_ALL", .string "AllBots"),
   ("BOT_WANDER_MOVEMENT_TYPE", .integer 1),
   ("BOT_WANDER_TIME_BETWEEN_NODES", .integer 2),
   ("ENABLE_GRAVITY", .integer 0),
   ("GRAVITY_FORCE_X", .integer 1),
   ("GRAVITY_FORCE_Y", .integer 2),
   ("GRAVITY_FORCE_Z", .integer 3)]

def ofFeature (feature : Feature) (table : List (String × Constant)) : List NamedConstant :=
  table.map fun (name, value) => ⟨name, feature, value⟩

def lslConstants : List (String × Constant) :=
  coreConstants ++ sensorConstants ++ changeConstants ++ permissionConstants
    ++ linkConstants ++ statusConstants ++ controlConstants ++ parameterConstants
    ++ textualConstants ++ vehicleConstants

def constants : List NamedConstant :=
  ofFeature .lsl lslConstants ++ ofFeature .ossl openSimulatorConstants
    ++ ofFeature .aurora auroraConstants

/-- The constant of a name, if the dialect has its feature. -/
def constant? (name : String) (dialect : Dialect) : Option NamedConstant :=
  constants.find? fun constant => constant.name == name && dialect.has constant.feature

end LslFront.Builtin
