import SigmaQuery.Workload.Corpus

/-!
# Configurations for common systems

The documents of configurations for the systems that the corpus is converted for.
-/

namespace SigmaQuery.Configurations

open Corpus (map texts source)

def logSource (name : String) (named : List (String × String))
    (conditions : List (String × String)) : String × Value :=
  (name, map ((named.map fun (k, v) => (k, .text v)) ++ [("conditions", source conditions)]))

def indexed (name : String) (named : List (String × String)) : String × Value :=
  (name, source named)

/-- A service of a product with conditions. -/
def service (name product service : String) (conditions : List (String × String)) :
    String × Value :=
  logSource name [("product", product), ("service", service)] conditions

/-- Fields that have one name each, in a list. -/
def listed (fields : List (String × String)) : Value :=
  map (fields.map fun (k, v) => (k, texts [v]))

/-- The fields whose names get a common start. -/
def eventDataFields : List String :=
  ["AccessMask", "AccountName", "AllowedToDelegateTo", "AttributeLDAPDisplayName",
   "AuditPolicyChanges", "AuthenticationPackageName", "CallingProcessName", "CallTrace",
   "CommandLine", "ComputerName", "CurrentDirectory", "Description", "DestinationHostname",
   "DestinationIp", "DestinationIsIpv6", "DestinationPort", "Details", "EngineVersion",
   "EventType", "FailureCode", "FileName", "GrantedAccess", "GroupName", "Hashes", "HiveName",
   "HostVersion", "Image", "ImageLoaded", "ImagePath", "Imphash", "LogonProcessName", "LogonType",
   "NewProcessName", "ObjectClass", "ObjectName", "ObjectType", "ObjectValueName",
   "ParentCommandLine", "ParentImage", "Path", "PipeName", "ProcessName", "Properties",
   "ServiceFileName", "ServiceName", "ShareName", "Signature", "Source", "SourceImage",
   "StartModule", "Status", "SubjectUserName", "TargetFilename", "TargetImage", "TargetObject",
   "TicketEncryptionType", "TicketOptions", "User", "WorkstationName"]

/-- Events shipped to Elasticsearch by an agent. -/
def winlogbeat : Value :=
  map [("logsources", map
      [indexed "windows" [("product", "windows"), ("index", "winlogbeat-*")],
       service "windows-application" "windows" "application" [("log_name", "Application")],
       service "windows-security" "windows" "security" [("log_name", "Security")],
       service "windows-sysmon" "windows" "sysmon"
        [("log_name", "Microsoft-Windows-Sysmon/Operational")],
       service "windows-dns-server" "windows" "dns-server" [("log_name", "DNS Server")],
       service "windows-driver-framework" "windows" "driver-framework"
        [("source", "Microsoft-Windows-DriverFrameworks-UserMode/Operational")]]),
    ("defaultindex", .text "winlogbeat-*"),
    ("fieldmappings", map
      (("EventID", .text "event_id") ::
        eventDataFields.map fun f => (f, .text ("event_data." ++ f))))]

def qradar : Value :=
  map [("logsources", map
      [logSource "apache" [("product", "apache")]
        [("deviceProduct", "LOGSOURCETYPENAME(devicetype) ilike Apache")],
       logSource "windows" [("product", "windows")]
        [("deviceProduct",
          "LOGSOURCETYPENAME(devicetype)=Microsoft Windows Security Event Log")],
       indexed "qflow" [("product", "qflow"), ("index", "flows")],
       indexed "netflow" [("product", "netflow"), ("index", "flows")],
       indexed "ipfix" [("product", "ipfix"), ("index", "flows")],
       indexed "flow" [("category", "flow"), ("index", "flows")]]),
    ("fieldmappings", listed
      [("dst", "destinationIP"), ("dst_ip", "destinationIP"), ("src", "sourceIP"),
       ("src_ip", "sourceIP")])]

def arcsight : Value :=
  map [("logsources", map
      [logSource "linux" [("product", "linux")] [("deviceVendor", "Unix")],
       service "linux-sshd" "linux" "sshd" [("deviceVendor", "Unix")],
       service "linux-auth" "linux" "auth" [("deviceVendor", "Unix")],
       service "linux-clamav" "linux" "clamav" [("deviceVendor", "Unix")],
       service "windows-dns" "windows" "dns-server"
        [("deviceVendor", "Microsoft"), ("deviceProduct", "DNS-Server")],
       service "windows-pc" "windows" "powershell-classic" [("deviceVendor", "Microsoft")],
       service "windows-sys" "windows" "sysmon"
        [("deviceVendor", "Microsoft"), ("deviceProduct", "Sysmon")],
       service "windows-sec" "windows" "security"
        [("deviceVendor", "Microsoft"), ("deviceProduct", "Microsoft Windows")],
       service "windows-power" "windows" "powershell" [("deviceVendor", "Microsoft")],
       service "windows-system" "windows" "system" [("deviceVendor", "Microsoft")],
       service "windows-driver" "windows" "driver-framework" [("deviceVendor", "Microsoft")],
       service "windows-app" "windows" "application" [("deviceVendor", "Microsoft")],
       logSource "proxy" [("category", "proxy")] [("categoryDeviceGroup", "/Proxy")],
       logSource "python" [("product", "python")]
        [("deviceProduct", "Python"), ("categoryDeviceGroup", "/Application")],
       logSource "ruby_on_rails" [("product", "ruby_on_rails")]
        [("deviceProduct", "Ruby on Rails"), ("categoryDeviceGroup", "/Application")],
       logSource "spring" [("product", "spring")]
        [("deviceProduct", "Spring"), ("categoryDeviceGroup", "/Application")],
       logSource "apache" [("product", "firewall")] [("categoryDeviceGroup", "/Firewall")]]),
    ("fieldmappings", map
      (("EventID", .text "externalId") ::
        [("dst", texts ["destinationAddress"]), ("dst_ip", texts ["destinationAddress"]),
         ("src", texts ["sourceAddress"]), ("src_ip", texts ["sourceAddress"])]))]

def qualys : Value :=
  map [("fieldmappings", map
      [("dst", texts ["network.remote.address.ip"]),
       ("dst_ip", texts ["network.remote.address.ip"]),
       ("src", texts ["network.local.address.ip"]),
       ("src_ip", texts ["network.local.address.ip"]),
       ("file_hash", texts ["file.hash.md5", "file.hash.sha256"]),
       ("NewProcessName", .text "process.name"),
       ("ServiceName", .text "process.name"),
       ("ServiceFileName", .text "process.name"),
       ("TargetObject", .text "registry.path")])]

def netwitness : Value :=
  map [("logsources", map
      [logSource "linux" [("product", "linux")] [("device.class", "rhlinux")],
       service "linux-sshd" "linux" "sshd" [("device.class", "rhlinux"), ("client", "sshd")],
       service "linux-auth" "linux" "auth" [("device.class", "rhlinux")],
       service "linux-clamav" "linux" "clamav" [("device.class", "rhlinux")],
       service "windows-sys" "windows" "sysmon"
        [("device.type", "winevent_nic"),
         ("event.source", "microsoft-windows-security-auditing")],
       service "windows-power" "windows" "powershell" [("device.type", "winevent_nic")],
       service "windows-sec" "windows" "security"
        [("device.type", "winevent_nic"),
         ("event.source", "microsoft-windows-security-auditing")],
       service "windows-system" "windows" "system" [("device.type", "winevent_nic")]]),
    ("fieldmappings", listed
      [("dst", "ip.dst"), ("dst_ip", "ip.dst"), ("src", "ip.src"), ("src_ip", "ip.src"),
       ("DestinationPort", "ip.dstport"), ("EventID", "reference.id"),
       ("NewProcessName", "process"), ("LogonType", "logon.type"), ("AccountName", "user.dst"),
       ("c-uri-extension", "extension"), ("UserAgent", "user.agent"), ("r-dns", "alias.host"),
       ("DestinationHostname", "alias.host"), ("Host", "alias.host"),
       ("c-uri-query", "web.page"), ("URL", "web.page"), ("HttpMethod", "action"),
       ("Cookie", "web.cookie"), ("SubjectUserName", "user.dst")])]

/-- Services of Windows with the channels of their events. Channels of most services have a text
before their name in Splunk. -/
def channels (start : String) : List (String × String) :=
  [("application", start ++ "Application"),
   ("security", start ++ "Security"),
   ("system", start ++ "System"),
   ("sysmon", start ++ "Microsoft-Windows-Sysmon/Operational"),
   ("powershell", start ++ "Microsoft-Windows-PowerShell/Operational"),
   ("powershell-classic", "Windows PowerShell"),
   ("taskscheduler", start ++ "Microsoft-Windows-TaskScheduler/Operational"),
   ("wmi", start ++ "Microsoft-Windows-WMI-Activity/Operational"),
   ("dns-server", "DNS Server"),
   ("dns-server-audit", "Microsoft-Windows-DNS-Server/Audit"),
   ("driver-framework", "Microsoft-Windows-DriverFrameworks-UserMode/Operational"),
   ("ntlm", "Microsoft-Windows-NTLM/Operational")]

/-- The log sources of channels, told apart by a field. -/
def channelSources (field start : String) : Value :=
  map ((channels start).map fun (name, channel) =>
    let named := [("product", "windows"), ("service", name)] ++
      if name == "dns-server" then [("category", "dns")] else []
    logSource ("windows-" ++ name) named [(field, channel)])

def powershell : Value :=
  map [("logsources", channelSources "LogName" "")]

def splunk : Value :=
  map [("logsources", channelSources "source" "WinEventLog:"),
    ("fieldmappings", source [("EventID", "EventCode")])]

end SigmaQuery.Configurations
