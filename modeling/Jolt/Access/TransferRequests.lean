import Jolt.Access.Scopes

/-! Requests to transfer files between two nodes. Control checks the paths against the
policies of the caller, looks for a grant on either node, and sends the destination node a
path that is relative to its grant; the node puts the grant's path before it again. -/
namespace Jolt.Access.Transfer
open Jolt.Base

section Paths

def normalizeTransferPath (value : Text) (allowRoot : Bool) : Except String Text :=
  let value := trimSpace (slashed value)
  if value = [] then if allowRoot then .ok [] else .error "empty path"
  else if isRooted letters value then .error "absolute path"
  else
    let clean := clean letters value
    if clean = [dot] then if allowRoot then .ok [] else .error "root path"
    else if leadsUp clean then .error "path traversal"
    else .ok clean

def relativeTransferPath (candidate grantPath : Text) : Option Text :=
  match normalizeTransferPath candidate true, normalizeTransferPath grantPath true with
  | .ok candidate, .ok grantPath =>
    if grantPath = [] then some candidate
    else if candidate = grantPath then some []
    else if (grantPath ++ [slash]).isPrefixOf candidate then
      some (candidate.drop (grantPath ++ [slash]).length)
    else none
  | _, _ => none

def validPathIdentifier (value : Text) : Bool :=
  let value := trimSpace value
  value != [] && !(value.any fun b => (ascii "/\\?#").contains b)

end Paths

section Node

def cleanRelative (value : Text) : Text :=
  let value := trimSpace (slashed value)
  let value := trimStart [[slash]] value
  let cleaned := clean letters value
  if cleaned = [] ∨ cleaned = [slash] then [dot] else cleaned

/-- `path.Join` of two paths that are not empty. -/
def joinPaths (base relative : Text) : Text := clean letters (base ++ slash :: relative)

def withinGrant (base relative : Text) : Except PathError Text :=
  let relative := cleanRelative relative
  if leadsUp relative then .error .traversal
  else
    let base := cleanRelative base
    let joined := joinPaths base relative
    if base ≠ [dot] ∧ joined ≠ base ∧ ¬ (base ++ [slash]).isPrefixOf joined then .error .traversal
    else .ok (cleanRelative joined)

end Node

section Grants

structure TransferGrant where
  id : Text
  peerNodeID : Text
  mountID : Text
  path : Text
  direction : Text
  enabled : Bool
  conflictPolicies : List Text
  exclude : List Text
  read : Bool
  write : Bool
  delete : Bool
  deriving DecidableEq

inductive Operation where
  | copy | move
  deriving DecidableEq

/-- Functions of the standard library on strings; a pattern may be malformed. -/
structure Strings where
  toLower : Text → Text
  equalFold : Text → Text → Bool
  pathMatch : Text → Text → Option Bool

variable (strings : Strings)

def containsString (values : List Text) (expected : Text) : Bool :=
  values.any fun value => strings.equalFold (trimSpace value) expected

def grantAllowsPath (grant : TransferGrant) (value : Text) : Bool :=
  grant.exclude.length ≤ 64 && grant.exclude.all fun pattern =>
    pattern != [] && !(pattern.any fun b => ([slash, backslash, 0] : Text).contains b) &&
      (strings.pathMatch (strings.toLower pattern) (ascii "test")).isSome &&
      (value.splitOn slash).all fun component =>
        component == [] || component == [dot] ||
          strings.pathMatch (strings.toLower pattern) (strings.toLower component) == some false

def sourceGrantAllows (grant : TransferGrant) (destinationNodeID mountID : Text)
    (paths : List Text) (operation : Operation) : Bool :=
  grant.enabled && grant.peerNodeID == destinationNodeID && grant.mountID == mountID &&
    grant.read && (grant.direction == ascii "send" || grant.direction == ascii "send_receive") &&
    (operation != .move || grant.delete) && grantAllowsPath strings grant grant.path &&
    paths.all fun sourcePath =>
      (relativeTransferPath sourcePath grant.path).isSome && grantAllowsPath strings grant sourcePath

def destinationGrantAllows (grant : TransferGrant) (sourceNodeID : Text) : Bool :=
  grant.enabled && grantAllowsPath strings grant grant.path && grant.peerNodeID == sourceNodeID &&
    grant.write && (grant.direction == ascii "receive" || grant.direction == ascii "send_receive")

def grantsSupportedByNode (grants : List TransferGrant) (capabilities : List Text)
    (capability : Text) : List TransferGrant :=
  if containsString strings capabilities capability then grants
  else grants.filter fun grant => grant.exclude.isEmpty

def preferGrant (allows : TransferGrant → Bool) (best : Option (TransferGrant × Nat))
    (candidate : TransferGrant) : Option (TransferGrant × Nat) :=
  if allows candidate = false then best
  else
    match normalizeTransferPath candidate.path true, best with
    | .error _, _ => best
    | .ok root, none => some (candidate, root.length)
    | .ok root, some (grant, specificity) =>
      if specificity < root.length then some (candidate, root.length)
      else some (grant, specificity)

def mostSpecific (allows : TransferGrant → Bool) (grants : List TransferGrant) :
    Option TransferGrant :=
  (grants.foldl (preferGrant allows) none).map Prod.fst

def selectLogicalTransferGrants (sourceGrants destinationGrants : List TransferGrant)
    (sourceNodeID destinationNodeID sourceMountID destinationMountID : Text) (paths : List Text)
    (destinationPath : Text) (operation : Operation) (conflictPolicy : Text) :
    Option (TransferGrant × TransferGrant) :=
  match mostSpecific (fun grant => sourceGrantAllows strings grant destinationNodeID sourceMountID
      paths operation) sourceGrants with
  | none => none
  | some sourceGrant =>
    (mostSpecific (fun grant => destinationGrantAllows strings grant sourceNodeID &&
      grant.mountID == destinationMountID &&
      containsString strings grant.conflictPolicies conflictPolicy &&
      (relativeTransferPath destinationPath grant.path).isSome &&
      grantAllowsPath strings grant destinationPath) destinationGrants).map
        fun destinationGrant => (sourceGrant, destinationGrant)

end Grants

section Requests

/-- What a request is answered with where it goes no further. -/
structure Refusal where
  status : Nat
  code : String
  message : String
  deriving DecidableEq

inductive Verdict where
  | allowed
  | denied
  | failed (refusal : Refusal)

structure NodeRecord where
  id : Text
  state : Text
  deriving DecidableEq

structure NodeMetadata where
  nodeID : Text
  capabilities : List Text

structure LogicalTransferRequest where
  operation : Text
  sourceNodeID : Text
  sourceMountID : Text
  sourcePaths : List Text
  destinationMountID : Text
  destinationPath : Text
  conflictPolicy : Text
  deriving DecidableEq

/-- What control is set up with, and what it finds while it resolves a request: the caller's
policies, with or without the leave of typed rules, the nodes and what they answer. -/
structure Control where
  strings : Strings
  typedPolicies : Bool
  signedLocalJobs : Bool
  maxSourcePaths : Int
  authorize : Bool → Text → String → Verdict
  deniesWithinScope : Bool → Text → Verdict
  getNode : Text → Option NodeRecord
  nodeMetadata : NodeRecord → Option NodeMetadata
  nodeTransferGrants : NodeRecord → Except Refusal (List TransferGrant)

structure ResolvedTransfer where
  request : LogicalTransferRequest
  operation : Operation
  sourceNode : NodeRecord
  sourcePeerNodeID : Text
  destinationNode : NodeRecord
  sourceGrant : TransferGrant
  destinationGrant : TransferGrant
  sourcePaths : List Text
  destinationPath : Text
  deriving DecidableEq

variable (c : Control)

def Verdict.refusal : Verdict → Refusal → Option Refusal
  | .allowed, _ => none
  | .denied, refusal => some refusal
  | .failed refusal, _ => some refusal

def Control.authorizeFileTree (filtered : Bool) (scope : Text) (capability : String) :
    Option Refusal :=
  if scope = [] then some ⟨400, "invalid_path", "Caminho inválido."⟩
  else
    match (c.authorize filtered scope capability).refusal ⟨403, "permission_denied",
      "A policy atual não permite esta operação de arquivo."⟩ with
    | some refusal => some refusal
    | none => (c.deniesWithinScope filtered scope).refusal ⟨403, "deny_rule_within_scope",
      "Há regras de negação dentro desta pasta. Selecione uma subpasta permitida."⟩

def Control.transferMaxSourcePaths : Int := if 0 < c.maxSourcePaths then c.maxSourcePaths else 1000

def operationOf (name : Text) : Option Operation :=
  if name = [] ∨ name = ascii "copy" then some .copy
  else if name = ascii "move" then some .move
  else none

/-- A path of the selection that is another one, or lies below it, comes right after it. -/
def overlapping (sorted : List Text) : Bool :=
  (sorted.zip sorted.tail).any fun (before, path) =>
    path == before || (before ++ [slash]).isPrefixOf path

def Control.normalizeTransferSelection (paths : List Text) (operation : Text) :
    Except String (List Text × Operation) :=
  match operationOf (c.strings.toLower (trimSpace operation)) with
  | none => .error "invalid operation"
  | some operation =>
    if paths.length < 1 ∨ c.transferMaxSourcePaths < paths.length then
      .error "selection limit exceeded"
    else
      match paths.mapM fun path => normalizeTransferPath path false with
      | .error text => .error text
      | .ok normalized =>
        let sorted := normalized.insertionSort (· ≤ ·)
        if overlapping sorted then .error "overlapping selection" else .ok (sorted, operation)

def Control.conflictPolicy (given : Text) : Text :=
  let policy := c.strings.toLower (trimSpace given)
  if policy = [] then ascii "fail" else policy

def validConflictPolicy (policy : Text) : Bool :=
  ["fail", "skip", "overwrite", "rename", "ask", "checksum"].any fun name => policy == ascii name

def transferMayOverwrite (policy : Text) : Bool :=
  ["overwrite", "checksum", "ask"].any fun name => policy == ascii name

def invalidSelection (message : String) : Refusal := ⟨400, "invalid_selection", message⟩

def Control.authorizeTransfer (filtered : Bool) (transferCapability : String)
    (destinationNodeID : Text) (request : LogicalTransferRequest) (operation : Operation) :
    Option Refusal :=
  let source := request.sourcePaths.map
    (fileScope (mountScope request.sourceNodeID request.sourceMountID))
  let destination := fileScope (mountScope destinationNodeID request.destinationMountID)
    request.destinationPath
  let reading := source.flatMap fun scope =>
    c.authorizeFileTree filtered scope "read" :: if operation = .move then
      [c.authorizeFileTree filtered scope "delete", c.authorizeFileTree filtered scope "update"]
    else []
  let writing := [c.authorizeFileTree filtered destination "create",
    (c.authorize filtered (ascii "nodes/" ++ destinationNodeID ++ ascii "/transfers")
      transferCapability).refusal ⟨403, "permission_denied",
        "Você não pode executar transferências neste node."⟩]
  let overwriting := if transferMayOverwrite request.conflictPolicy then
    [c.authorizeFileTree filtered destination "update"] else []
  (reading ++ writing ++ overwriting).findSome? id

def Control.planTransfer (destinationNodeID : Text) (request : LogicalTransferRequest)
    (operation : Operation) : Except Refusal ResolvedTransfer :=
  match c.getNode request.sourceNodeID, c.getNode destinationNodeID with
  | none, _ => .error ⟨404, "node_unavailable", "O node de origem não está disponível."⟩
  | some _, none => .error ⟨404, "node_unavailable", "O node de destino não está disponível."⟩
  | some sourceNode, some destinationNode =>
    if destinationNode.state = ascii "untrusted" then
      .error ⟨404, "node_unavailable", "O node de destino não está disponível."⟩
    else
      match c.nodeMetadata sourceNode, c.nodeMetadata destinationNode with
      | some source, some destination =>
        match c.nodeTransferGrants sourceNode, c.nodeTransferGrants destinationNode with
        | .error refusal, _ => .error refusal
        | .ok _, .error refusal => .error refusal
        | .ok sourceGrants, .ok destinationGrants =>
          let select := fun sources destinations =>
            selectLogicalTransferGrants c.strings sources destinations source.nodeID
              destination.nodeID request.sourceMountID request.destinationMountID
              request.sourcePaths request.destinationPath operation request.conflictPolicy
          match select
              (grantsSupportedByNode c.strings sourceGrants source.capabilities
                (ascii "grant_exclude_send_v1"))
              (grantsSupportedByNode c.strings destinationGrants destination.capabilities
                (ascii "grant_exclude_receive_v1")) with
          | none =>
            if (select sourceGrants destinationGrants).isSome then
              .error ⟨409, "node_upgrade_required",
                "Atualize os nodes para usar exclusões nesta transferência."⟩
            else
              .error ⟨422, "no_compatible_grant",
                "Não há um grant compatível para toda a seleção e o destino."⟩
          | some (sourceGrant, destinationGrant) =>
            .ok {
              request, operation, sourceNode, destinationNode, sourceGrant, destinationGrant
              sourcePeerNodeID := source.nodeID
              sourcePaths := request.sourcePaths.map fun path =>
                (relativeTransferPath path sourceGrant.path).getD []
              destinationPath :=
                (relativeTransferPath request.destinationPath destinationGrant.path).getD [] }
      | _, _ => .error ⟨502, "node_unavailable",
        "Não foi possível consultar a identidade dos nodes da transferência."⟩

def Control.resolveLogicalTransferRequest (transferCapability : String) (nodeID : Text)
    (request : LogicalTransferRequest) : Except Refusal ResolvedTransfer :=
  let destinationNodeID := trimSpace nodeID
  if c.transferMaxSourcePaths < request.sourcePaths.length then
    .error ⟨400, "selection_limit_exceeded", "A seleção excede o limite configurado de raízes."⟩
  else
    match c.normalizeTransferSelection request.sourcePaths request.operation with
    | .error _ => .error (invalidSelection "A seleção ou o destino da transferência são inválidos.")
    | .ok (paths, operation) =>
      if !validPathIdentifier destinationNodeID || !validPathIdentifier request.sourceNodeID ||
          !validPathIdentifier request.sourceMountID ||
          !validPathIdentifier request.destinationMountID ||
          request.sourceNodeID == destinationNodeID then
        .error (invalidSelection "A seleção ou o destino da transferência são inválidos.")
      else
        match normalizeTransferPath request.destinationPath true with
        | .error _ => .error ⟨400, "path_outside_grant",
          "A pasta de destino precisa ser relativa ao mount autorizado."⟩
        | .ok destinationPath =>
          let filtered := c.typedPolicies && c.signedLocalJobs
          let conflictPolicy := c.conflictPolicy request.conflictPolicy
          let request := { request with sourcePaths := paths, destinationPath, conflictPolicy }
          if validConflictPolicy conflictPolicy = false then
            .error (invalidSelection "A política de conflito é inválida.")
          else
            match c.authorizeTransfer filtered transferCapability destinationNodeID request
                operation with
            | some refusal => .error refusal
            | none => c.planTransfer destinationNodeID request operation

end Requests

end Jolt.Access.Transfer
