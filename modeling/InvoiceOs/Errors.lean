import Mathlib.Data.List.Basic

/-! The identifiers, authors and sentinels the stores share. -/

namespace InvoiceOs

abbrev Uuid := BitVec 128

instance : LawfulBEq Uuid := inferInstance

inductive Subject where
  | user (id : Uuid)
  | system
  | revalidateRuleSet
  | support
  deriving DecidableEq

/-- The sentinels a store call answers with; nothing it wrote is kept. -/
inductive Err where
  | notFound
  | validation
  | notPermitted
  | duplicateNumber
  | originalNotFound
  | originalIsANote
  | originalOtherEntity
  | notFixable
  | numberFixed
  | numberTaken
  | notDraft
  | notKeepable
  | notResolvable
  | staleValidation
  | rulesChanged
  | ruleChangePending
  | redundantTransition
  | illegalTransition
  | awaitingApproval
  | useValidateEndpoint
  | resolvedOutside
  | noteChecksFailed
  | runNotFound
  | runClosed
  | notAwaitingApproval
  | notRoleHolder
  | creatorRefused (reason : String)
  | uniqueViolation
  | checkViolation
  | sweepCapExceeded
  | policyNotFound
  | policyStepRole
  | policyEmptyBranches
  | policyNothingToPublish
  | policyCatchAll
  | policyOrderStale
  | policyDelegateNotMember
  | policyDelegateIneligible
  | scopeEntity
  | scopeBand
  | scopeCurrency
  | scopeRole
  | unknownLineID
  | foreignKeyViolation
  | invalidText
  deriving DecidableEq

end InvoiceOs
