import FileDelivery.Control.FolderUpload
import FileDelivery.Control.Models

namespace FileDelivery.Control

/-- The settings that `resolve_current_actor` reads. -/
structure AuthSettings where
  auth_allow_dev_headers : Bool
  auth_default_actor_enabled : Bool
  auth_default_tenant_id : String
  auth_default_user_id : String
  auth_default_role : Text
  auth_actor_tenant_header : Text
  auth_actor_user_header : Text
  auth_actor_role_header : Text
  deriving DecidableEq, Repr

def AuthSettings.default : AuthSettings where
  auth_allow_dev_headers := true
  auth_default_actor_enabled := true
  auth_default_tenant_id := "hq"
  auth_default_user_id := "local-user"
  auth_default_role := "hq_uploader"
  auth_actor_tenant_header := "X-Actor-Tenant"
  auth_actor_user_header := "X-Actor-User"
  auth_actor_role_header := "X-Actor-Role"

namespace Auth

/-- `VALID_ROLES`. -/
def roleOf (text : Text) : Option Role :=
  [Role.hq_admin, .hq_uploader, .subsidiary_admin, .subsidiary_viewer].find?
    (fun role => role.text.toList == text)

/-- The headers of a request, their names in lower case as the server hands them on. -/
abbrev Headers := List (Text × Text)

/-- `headers.get(name, "").strip()`. -/
def header (py : Python) (headers : Headers) (name : Text) : Text :=
  strip (((headers.find? (fun h => h.1 == py.lower name)).map (·.2)).getD [])

def _parse_actor_from_headers (py : Python) (headers : Headers) (settings : AuthSettings) :
    Except HTTPException CurrentActor :=
  if settings.auth_allow_dev_headers then
    let tenant_id := header py headers settings.auth_actor_tenant_header
    let user_id := header py headers settings.auth_actor_user_header
    let role := header py headers settings.auth_actor_role_header
    if tenant_id = [] ∨ user_id = [] ∨ role = [] then .error ⟨401, "Missing actor headers"⟩
    else
      match roleOf role with
      | none => .error ⟨403, "Invalid actor role: " ++ py.repr role⟩
      | some role => .ok ⟨String.ofList tenant_id, String.ofList user_id, role⟩
  else .error ⟨401, "Dev actor headers are disabled"⟩

/-- One of the actor headers is enough for all three to be asked for. -/
def resolve_current_actor (py : Python) (headers : Headers) (settings : AuthSettings) :
    Except HTTPException CurrentActor :=
  if [settings.auth_actor_tenant_header, settings.auth_actor_user_header,
      settings.auth_actor_role_header].any (fun name => header py headers name ≠ []) then
    _parse_actor_from_headers py headers settings
  else if settings.auth_default_actor_enabled then
    match roleOf settings.auth_default_role with
    | none => .error ⟨403, "Invalid default actor role: " ++ py.repr settings.auth_default_role⟩
    | some role => .ok ⟨settings.auth_default_tenant_id, settings.auth_default_user_id, role⟩
  else .error ⟨401, "Current actor is required"⟩

end Auth
end FileDelivery.Control
