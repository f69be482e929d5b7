/-!
# Names in a controller's store

The collections that the upgrade reads and writes, and the administrator.
-/

namespace FleetUpgrade

/-- The user to whom every permission is granted. -/
def adminUser : String := "admin@local"

namespace CollectionName

def annotations : String := "annotations"

def applications : String := "applications"

def assignUnits : String := "assignUnits"

def cleanups : String := "cleanups"

def clouds : String := "clouds"

def cloudCredentials : String := "cloudCredentials"

def cloudImageMetadata : String := "cloudimagemetadata"

def constraints : String := "constraints"

def controllers : String := "controllers"

def controllerUsers : String := "controllerusers"

def endpointBindings : String := "endpointbindings"

def ipAddresses : String := "ip.addresses"

def leases : String := "leases"

def legacyIpAddresses : String := "ipaddresses"

def linkLayerDevices : String := "linklayerdevices"

def machines : String := "machines"

def migrations : String := "migrations"

def models : String := "models"

def modelEntityRefs : String := "modelEntityRefs"

def modelUsers : String := "modelusers"

def permissions : String := "permissions"

def providerIds : String := "providerIDs"

def refcounts : String := "refcounts"

def relations : String := "relations"

def resources : String := "resources"

def sequence : String := "sequence"

def services : String := "services"

def settings : String := "settings"

def settingsRefs : String := "settingsrefs"

def spaces : String := "spaces"

def statuses : String := "statuses"

def statusesHistory : String := "statuseshistory"

def storageConstraints : String := "storageconstraints"

def storageInstances : String := "storageinstances"

def subnets : String := "subnets"

def toolsMetadata : String := "toolsmetadata"

def units : String := "units"

def userModelName : String := "usermodelname"

def users : String := "users"

end CollectionName

end FleetUpgrade
