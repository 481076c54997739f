import MqttServices.Broker.AlternativeNames
import MqttServices.Broker.BrokerService
import MqttServices.Broker.Credentials
import MqttServices.Broker.DataDirectory
import MqttServices.Broker.Pinning
import MqttServices.Broker.PrivateFile
import MqttServices.Broker.Program
import MqttServices.Broker.ServiceProcess
import MqttServices.Broker.StartupValidation
import MqttServices.Broker.SubjectName
import MqttServices.Broker.Validity
import MqttServices.Broker.Watchdog
import MqttServices.Client.CertificateValidator
import MqttServices.Client.Endpoint
import MqttServices.Client.Exclusion
import MqttServices.Client.Flags
import MqttServices.Client.Machine
import MqttServices.Client.Operations
import MqttServices.Client.ReconnectService
import MqttServices.Client.Reconnecting
import MqttServices.Client.Settings
import MqttServices.Common.Payload
import MqttServices.Common.ServiceCollectionsExtensions
import MqttServices.Discovery.Agreement
import MqttServices.Discovery.Client
import MqttServices.Discovery.ConfigurationRoot
import MqttServices.Discovery.Protocol
import MqttServices.Discovery.Server
import MqttServices.Lib.Broadcast
import MqttServices.Lib.Datagrams
import MqttServices.Lib.Layers
import MqttServices.Lib.Run
import MqttServices.Services.Arrival
import MqttServices.Services.Correlation
import MqttServices.Services.Decode
import MqttServices.Services.Delivery
import MqttServices.Services.Exchange
import MqttServices.Services.Handlers
import MqttServices.Services.Isolation
import MqttServices.Services.Origin
import MqttServices.Services.Receive
import MqttServices.Services.Send
import MqttServices.Services.Subscriptions
import MqttServices.Services.Topics
import MqttServices.Services.TypeTag
