/-!
# Marker names

The markers and attributes that classification gives a meaning. Any other marker is carried along.
-/

namespace Wiring.Marker

def inject : String := "Inject"
def qualifier : String := "Qualifier"
def bean : String := "Bean"
def value : String := "Value"
def property : String := "Property"
def postConstruct : String := "PostConstruct"
def preDestroy : String := "PreDestroy"
def executable : String := "Executable"
def adapter : String := "Adapter"
def around : String := "Around"
def requiresValidation : String := "RequiresValidation"
def validated : String := "Validated"
def configurationReader : String := "ConfigurationReader"

/-- The attribute of `executable` that asks for processing at startup. -/
def processOnStartup : String := "process_on_startup"

/-- The attribute of `adapter` that names the type an adapter implements. -/
def adaptedType : String := "adapted_type"

end Wiring.Marker
