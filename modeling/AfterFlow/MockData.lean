import AfterFlow.Schemas

/-!
# Provider tables

What the order, payment, logistics, risk, policy, inventory and cost systems know, as a parameter
of the evaluation, and the demo content of `mock_data.py`.
-/

namespace AfterFlow

inductive SystemRole where
  | admin
  | user
  deriving DecidableEq

structure OrderRecord where
  orderId : String
  customerId : String
  region : String
  sku : String
  itemPaid : ℕ
  shippingPaid : ℕ
  status : String
  deriving DecidableEq

structure PaymentRecord where
  refundableBalance : ℕ
  currency : String := "CNY"
  paymentStatus : String := "paid"
  deriving DecidableEq

structure LogisticsRecord where
  status : String
  proofOfDelivery : Bool
  carrier : String := "DEMO-EXPRESS"
  deriving DecidableEq

structure InventoryRecord where
  available : ℕ
  replacementUnitCost : ℕ
  deriving DecidableEq

structure ReverseCostRecord where
  returnShippingCost : ℕ
  handlingCost : ℕ
  expectedRecoveryValue : ℕ
  replacementShippingCost : ℕ
  deriving DecidableEq

structure CustomerProfile where
  accountAgeDays : Option ℤ := none
  historicalRefundRate : Option ℚ := none
  addressChanges30d : ℤ := 0
  deviceReuse : Bool := false
  deriving DecidableEq

/-- The content of the provider tables, each keyed as in the source. -/
structure Providers where
  orders : List (String × OrderRecord)
  payments : List (String × PaymentRecord)
  logistics : List (String × LogisticsRecord)
  customerRisk : List (String × CustomerRiskContext)
  policies : List (String × PolicySnapshot)
  inventory : List (String × InventoryRecord)
  reverseCosts : List (String × ReverseCostRecord)
  customerProfiles : List (String × CustomerProfile)
  signReceiptHours : List (String × Option ℤ)

/-- `ROLE_REFUND_LIMITS`: ¥200 for an operator, ¥10,000 for a supervisor. -/
def roleRefundLimit : SystemRole → ℕ
  | .user => 20000
  | .admin => 1000000

/-- The refund limit of a role, the most restrictive one by default. -/
def resolveOperatorRefundLimit : Option SystemRole → ℕ
  | some role => roleRefundLimit role
  | none => roleRefundLimit .user

def mockData : Providers where
  orders := [
    ("ORDER-1001", ⟨"ORDER-1001", "CUSTOMER-001", "CN", "PHONE-X-256", 89900, 1000, "shipped"⟩),
    ("ORDER-1002", ⟨"ORDER-1002", "CUSTOMER-002", "CN", "HEADSET-LITE", 9900, 0, "shipped"⟩),
    ("ORDER-1003", ⟨"ORDER-1003", "CUSTOMER-003", "CN", "KETTLE-SMART", 32800, 800, "delivered"⟩),
    ("ORDER-1004", ⟨"ORDER-1004", "CUSTOMER-004", "CN", "LAPTOP-X", 800000, 0, "delivered"⟩)]
  payments := [
    ("ORDER-1001", { refundableBalance := 90900 }),
    ("ORDER-1002", { refundableBalance := 9900 }),
    ("ORDER-1003", { refundableBalance := 33600 }),
    ("ORDER-1004", { refundableBalance := 800000 })]
  logistics := [
    ("ORDER-1001", { status := "in_transit", proofOfDelivery := false }),
    ("ORDER-1002", { status := "delivered", proofOfDelivery := true }),
    ("ORDER-1003", { status := "delivered", proofOfDelivery := true }),
    ("ORDER-1004", { status := "delivered", proofOfDelivery := false })]
  customerRisk := [
    ("CUSTOMER-001", ⟨0, 0⟩), ("CUSTOMER-002", ⟨3, 4⟩), ("CUSTOMER-003", ⟨0, 1⟩),
    ("CUSTOMER-004", ⟨3, 5⟩)]
  policies := [("CN",
    { policyId := "AFTER-SALES-CN"
      version := "2026.07"
      coveredIssues :=
        [.deliveryNotReceived, .damagedItem, .wrongItem, .qualityIssue, .refundAmountDispute]
      refundShippingIssues := [.deliveryNotReceived]
      returnRequiredIssues := [.damagedItem, .wrongItem]
      manualReviewAmount := 100000
      highValueAmount := 50000 })]
  inventory := [
    ("PHONE-X-256", ⟨3, 61000⟩), ("HEADSET-LITE", ⟨0, 5200⟩), ("KETTLE-SMART", ⟨12, 18000⟩)]
  reverseCosts := [
    ("PHONE-X-256", ⟨1800, 800, 45000, 1200⟩), ("HEADSET-LITE", ⟨900, 400, 2000, 600⟩),
    ("KETTLE-SMART", ⟨1200, 600, 1000, 800⟩)]
  customerProfiles := [
    ("CUSTOMER-001", ⟨some 540, some (1 / 20), 0, false⟩),
    ("CUSTOMER-002", ⟨some 20, some (11 / 20), 3, true⟩),
    ("CUSTOMER-003", ⟨some 900, some (1 / 10), 1, false⟩),
    ("CUSTOMER-004", ⟨some 60, some (2 / 5), 2, true⟩)]
  signReceiptHours := [
    ("ORDER-1001", none), ("ORDER-1002", none), ("ORDER-1003", some 96), ("ORDER-1004", none)]

end AfterFlow
