import LslFront.Dialect

/-!
# Built-in functions

Only the names matter here: a script may not declare a name that a visible function has.
-/

namespace LslFront.Builtin

def lslFunctions : List String :=
  ["llAbs", "llAcos", "llAddToLandBanList", "llAllowInventoryDrop", "llAngleBetween",
   "llApplyImpulse", "llAsin", "llAtan2", "llAttachToAvatar", "llAxes2Rot", "llAxisAngle2Rot",
   "llBase64ToString", "llBreakAllLinks", "llBreakLink", "llCSV2List", "llCeil",
   "llClearCameraParams", "llCloud", "llCollisionFilter", "llCos", "llCreateLink",
   "llDeleteSubList", "llDeleteSubString", "llDetachFromAvatar", "llDetectedKey",
   "llDetectedName", "llDetectedOwner", "llDetectedPos", "llDetectedRot", "llDetectedType",
   "llDetectedVel", "llDialog", "llDie", "llDumpList2String", "llEmail", "llEuler2Rot", "llFabs",
   "llFloor", "llFrand", "llGetAgentInfo", "llGetAgentSize", "llGetAlpha", "llGetAttached",
   "llGetColor", "llGetCreator", "llGetDate", "llGetFreeMemory", "llGetGMTclock",
   "llGetInventoryKey", "llGetInventoryName", "llGetInventoryNumber", "llGetInventoryType",
   "llGetKey", "llGetLinkKey", "llGetLinkName", "llGetLinkNumber", "llGetListEntryType",
   "llGetListLength", "llGetLocalPos", "llGetLocalRot", "llGetMass", "llGetNotecardLine",
   "llGetNumberOfPrims", "llGetObjectDesc", "llGetObjectDetails", "llGetObjectName",
   "llGetOwner", "llGetOwnerKey", "llGetPermissions", "llGetPermissionsKey", "llGetPos",
   "llGetPrimitiveParams", "llGetRegionName", "llGetRot", "llGetScale", "llGetScriptName",
   "llGetStartParameter", "llGetSubString", "llGetTime", "llGetTimestamp", "llGetUnixTime",
   "llGetVel", "llGetWallclock", "llGiveInventory", "llGiveMoney", "llHTTPRequest",
   "llHTTPResponse", "llInsertString", "llInstantMessage", "llIntegerToBase64", "llJson2List",
   "llJsonGetValue", "llJsonSetValue", "llKey2Name", "llList2CSV", "llList2Float",
   "llList2Integer", "llList2Json", "llList2Key", "llList2List", "llList2ListStrided",
   "llList2Rot", "llList2String", "llList2Vector", "llListFindList", "llListInsertList",
   "llListRandomize", "llListReplaceList", "llListSort", "llListen", "llListenControl",
   "llListenRemove", "llLoadURL", "llLog", "llLog10", "llLookAt", "llMD5String",
   "llMessageLinked", "llMoveToTarget", "llOwnerSay", "llParseString2List",
   "llParseStringKeepNulls", "llPlaySound", "llPow", "llRegionSay", "llRegionSayTo",
   "llReleaseControls", "llRemoteLoadScriptPin", "llRemoveInventory", "llRequestAgentData",
   "llRequestPermissions", "llRequestURL", "llResetScript", "llResetTime", "llRezAtRoot",
   "llRezObject", "llRot2Angle", "llRot2Axis", "llRot2Euler", "llRot2Fwd", "llRot2Left",
   "llRot2Up", "llRotBetween", "llRound", "llSameGroup", "llSay", "llSensor", "llSensorRemove",
   "llSensorRepeat", "llSetAlpha", "llSetColor", "llSetLinkAlpha", "llSetLinkColor",
   "llSetLinkPrimitiveParams", "llSetLinkPrimitiveParamsFast", "llSetLocalRot",
   "llSetObjectDesc", "llSetObjectName", "llSetPayPrice", "llSetPos", "llSetPrimitiveParams",
   "llSetRot", "llSetScale", "llSetScriptState", "llSetSitText", "llSetStatus", "llSetText",
   "llSetTexture", "llSetTimerEvent", "llSetTouchText", "llSetVehicleType", "llSHA1String",
   "llShout", "llSin", "llSitTarget", "llSleep", "llSqrt", "llStartAnimation", "llStopAnimation",
   "llStopSound", "llStringLength", "llStringToBase64", "llStringTrim", "llSubStringIndex",
   "llTakeControls", "llTan", "llTarget", "llTargetRemove", "llTeleportAgentHome", "llToLower",
   "llToUpper", "llTriggerSound", "llUnSit", "llUnescapeURL", "llEscapeURL", "llVecDist",
   "llVecMag", "llVecNorm", "llVolumeDetect", "llWater", "llWhisper", "llWind"]

def osslFunctions : List String :=
  ["osAvatarName2Key", "osDrawText", "osForceAttachToAvatar", "osGetAgentIP", "osGetAgents",
   "osGetAvatarList", "osGetDrawStringSize", "osGetGridName", "osGetMapTexture", "osGetNotecard",
   "osGetNotecardLine", "osGetNumberOfNotecardLines", "osGetRegionStats",
   "osGetSimulatorVersion", "osIsNpc", "osKey2Name", "osList2Double", "osMakeNotecard",
   "osMessageObject", "osMovePen", "osNpcCreate", "osNpcMoveTo", "osNpcRemove", "osNpcSay",
   "osNpcSit", "osNpcStand", "osParseJSON", "osSetDynamicTextureData", "osSetDynamicTextureURL",
   "osSetPenColor", "osSetPenSize", "osSetSpeed", "osTeleportAgent", "osTeleportOwner",
   "osGetWindParam", "osSetWindParam"]

def auroraFunctions : List String :=
  ["aaCreateBot", "aaDeserializeXMLKeys", "aaDeserializeXMLValues", "aaFollowAvatar",
   "aaGetIsInfiniteRegion", "aaGetLastOwner", "aaGetTeam", "aaGetTeamMembers",
   "aaGetWalkDisabled", "aaJoinCombat", "aaJoinCombatTeam", "aaLeaveCombat", "aaRaiseError",
   "aaRequestCombatPermission", "aaSayDistance", "aaSayTo", "aaSerializeXML",
   "aaSetCharacterStat", "aaSetCloudDensity", "aaSetConeOfSilence", "aaStopFollowAvatar",
   "aaUpdatePrimProperties", "aaWindlightGetDayCycle", "botCreateBot", "botFollowAvatar",
   "botMoveTo", "botRemoveBot", "botSetMap"]

/-- Functions for the administration of a region. -/
def adminFunctions : List String :=
  ["aaSetEnv", "aaUpdateDatabase", "aaQueryDatabase", "osConsoleCommand", "osKickAvatar",
   "osRegionNotice", "osRegionRestart", "osSetParcelDetails", "osSetRegionWaterHeight",
   "osSetTerrainHeight"]

def functions : List (String × Feature) :=
  lslFunctions.map (·, .lsl) ++ osslFunctions.map (·, .ossl)
    ++ auroraFunctions.map (·, .aurora) ++ adminFunctions.map (·, .admin)

/-- The feature of a function that the dialect makes visible. -/
def function? (name : String) (dialect : Dialect) : Option Feature :=
  (functions.find? fun (known, feature) => known == name && dialect.has feature).map (·.2)

end LslFront.Builtin
